import Fcfn.Ctl.ConfigText
import Fcfn.Model.Evidence
import Fcfn.Model.Policy

/-!
# The evidence file and the policy file

The line-oriented text forms of observations and of a policy, read with the lines, fields and values
of `ConfigText`. An observation is a line: a resource, a state, a generation and further fields. A
policy is the default one with the keys that the file sets. `parsePolicyDirective_ok` says which keys
those are. -/

namespace Fcfn.ConfigText

open Words

/-! ## Digests -/

/-- The value of a hexadecimal digit. -/
def hexValue (c : UInt8) : Option UInt64 :=
  if byteOf '0' ≤ c ∧ c ≤ byteOf '9' then some (c - byteOf '0').toUInt64
  else if byteOf 'a' ≤ c ∧ c ≤ byteOf 'f' then some (10 + (c - byteOf 'a').toUInt64)
  else if byteOf 'A' ≤ c ∧ c ≤ byteOf 'F' then some (10 + (c - byteOf 'A').toUInt64)
  else none

/-- Half of a digest. -/
def parseHexWord (text : Bytes) : Option UInt64 :=
  text.foldlM (fun word c => (hexValue c).map fun nibble => word <<< 4 ||| nibble) 0

/-- Parse a digest of 32 hexadecimal digits. -/
def parseDigest (text : Bytes) : Option Digest :=
  if text.length ≠ 32 then none
  else do
    let hi ← parseHexWord (text.take 16)
    let lo ← parseHexWord (text.drop 16)
    return ⟨hi, lo⟩

/-! ## The evidence file -/

/-- The text of an evidence state. -/
def evidenceStateToken : EvidenceState → Bytes
  | .present => bytesOf "present"
  | .absent => bytesOf "absent"
  | .unknown => bytesOf "unknown"

/-- The evidence state of a text. -/
def parseEvidenceState (token : Bytes) : Option EvidenceState :=
  [.present, .absent, .unknown].find? fun state => token == evidenceStateToken state

/-- An observation as a file reports it. The time is informational only, and no runtime takes it in. -/
structure FileObservation extends FailureObservation where
  observed_at_millis : UInt64
  deriving DecidableEq, Repr

/-- One field of an observation. -/
def parseEvidenceField (observation : FileObservation) (field : Field) : Result FileObservation :=
  if field.1 = bytesOf "digest" then do
    let source_digest ← expect (parseDigest field.2) "evidence digest is malformed"
    return { observation with source_digest }
  else if field.1 = bytesOf "at" then do
    let observed_at_millis ← expect (parseNumber field.2) "evidence timestamp is malformed"
    return { observation with observed_at_millis }
  else fail .invalidArgument "unknown evidence field"

/-- One line of an evidence file. -/
def parseEvidenceLine (observations : List FileObservation) (parts : List Bytes) :
    Result (List FileObservation) :=
  match parts with
  | [] => return observations
  | resource :: state :: generation :: fields => do
    let resource ← ResourceId.parse resource
    let state ← expect (parseEvidenceState state) "evidence state is malformed"
    let generation ← expect (parseNumber generation) "evidence generation is malformed"
    let observation ← (parseFields fields).foldlM parseEvidenceField
      ⟨⟨resource, state, generation, Digest.zero⟩, 0⟩
    return observations ++ [observation]
  | _ => fail .invalidArgument "evidence line requires resource, state, generation"

/-- Read the observations in an evidence file. -/
def parseEvidenceFile (file : Option Bytes) : Result (List FileObservation) := do
  let lines ← readLines file
  (lines.map split).foldlM parseEvidenceLine []

/-! ## The policy file -/

/-- Set a number of a policy, which must be positive. -/
def setPositive (number : Option UInt64) (message : String) (set : UInt64 → ContainmentPolicy) :
    Result ContainmentPolicy := do
  let value ← expect (number.filter (· != 0)) message
  return set value

/-- Set a flag of a policy. -/
def setFlag (text : Bytes) (set : Bool → ContainmentPolicy) : Result ContainmentPolicy := do
  let value ← expect (parseBool text) "policy flag is malformed"
  return set value

/-- One line of a policy file. -/
def parsePolicyDirective (policy : ContainmentPolicy) (parts : List Bytes) :
    Result ContainmentPolicy :=
  match parts with
  | [] => return policy
  | [key, value] =>
    let number := parseNumber value
    if key = bytesOf "generation" then
      setPositive number "policy generation must be a positive integer" fun n =>
        { policy with generation := n }
    else if key = bytesOf "require_failure_source_inclusion" then
      setFlag value fun b => { policy with require_failure_source_inclusion := b }
    else if key = bytesOf "allow_protected_inclusion" then
      setFlag value fun b => { policy with allow_protected_inclusion := b }
    else if key = bytesOf "minimize_protected_inclusions" then
      setFlag value fun b => { policy with minimize_protected_inclusions := b }
    else if key = bytesOf "max_boundary_weight" then
      setPositive number "policy weight bound is malformed" fun n =>
        { policy with max_boundary_weight := n }
    else if key = bytesOf "max_boundary_members" then
      setPositive number "policy member bound is malformed" fun n =>
        { policy with max_boundary_members := n }
    else if key = bytesOf "exact_search_budget" then
      setPositive number "policy search budget is malformed" fun n =>
        { policy with exact_search_budget := n }
    else if key = bytesOf "heuristic_budget" then
      setPositive number "policy heuristic budget is malformed" fun n =>
        { policy with heuristic_budget := n }
    else if key = bytesOf "exact_instance_node_limit" then
      setPositive number "policy node limit is malformed" fun n =>
        { policy with exact_instance_node_limit := n }
    else fail .invalidArgument "unknown policy field"
  | _ => fail .invalidArgument "policy directive requires a key and a value"

/-- Read the policy in a policy file. -/
def parsePolicyFile (file : Option Bytes) : Result ContainmentPolicy := do
  let lines ← readLines file
  (lines.map split).foldlM parsePolicyDirective defaultPolicy

/-! ## The keys of a policy -/

/-- The numbers of a policy. -/
inductive PolicyNumber
  | generation | maxBoundaryWeight | maxBoundaryMembers | exactSearchBudget | heuristicBudget
  | exactInstanceNodeLimit
  deriving DecidableEq, Repr

namespace PolicyNumber

/-- The key of a number. -/
def key : PolicyNumber → Bytes
  | generation => bytesOf "generation"
  | maxBoundaryWeight => bytesOf "max_boundary_weight"
  | maxBoundaryMembers => bytesOf "max_boundary_members"
  | exactSearchBudget => bytesOf "exact_search_budget"
  | heuristicBudget => bytesOf "heuristic_budget"
  | exactInstanceNodeLimit => bytesOf "exact_instance_node_limit"

/-- A number of a policy. -/
def get : PolicyNumber → ContainmentPolicy → UInt64
  | generation, policy => policy.generation
  | maxBoundaryWeight, policy => policy.max_boundary_weight
  | maxBoundaryMembers, policy => policy.max_boundary_members
  | exactSearchBudget, policy => policy.exact_search_budget
  | heuristicBudget, policy => policy.heuristic_budget
  | exactInstanceNodeLimit, policy => policy.exact_instance_node_limit

/-- A policy with one number changed. -/
def set : PolicyNumber → ContainmentPolicy → UInt64 → ContainmentPolicy
  | generation, policy, n => { policy with generation := n }
  | maxBoundaryWeight, policy, n => { policy with max_boundary_weight := n }
  | maxBoundaryMembers, policy, n => { policy with max_boundary_members := n }
  | exactSearchBudget, policy, n => { policy with exact_search_budget := n }
  | heuristicBudget, policy, n => { policy with heuristic_budget := n }
  | exactInstanceNodeLimit, policy, n => { policy with exact_instance_node_limit := n }

/-- What is set is got, and the other numbers are as they were. -/
theorem get_set (m n : PolicyNumber) (policy : ContainmentPolicy) (value : UInt64) :
    m.get (n.set policy value) = if m = n then value else m.get policy := by
  cases m <;> cases n <;> rfl

/-- The keys are told apart. -/
theorem key_injective {m n : PolicyNumber} (h : m.key = n.key) : m = n := by
  cases m <;> cases n <;> first | rfl | exact absurd h (by decide)

end PolicyNumber

/-- A number that is set was read and is positive. -/
theorem setPositive_ok {number : Option UInt64} {message : String}
    {set : UInt64 → ContainmentPolicy} {policy : ContainmentPolicy}
    (h : setPositive number message set = .ok policy) :
    ∃ value, number = some value ∧ value ≠ 0 ∧ policy = set value := by
  rw [setPositive, bind_eq_ok] at h
  obtain ⟨value, hvalue, h⟩ := h
  cases hnumber : number.filter (· != 0) with
  | none =>
    rw [hnumber] at hvalue
    exact absurd hvalue (by simp [expect, fail])
  | some n =>
    rw [hnumber] at hvalue
    obtain rfl := Except.ok.inj hvalue
    obtain ⟨hsome, hpositive⟩ := Option.filter_eq_some_iff.mp hnumber
    exact ⟨n, hsome, by simpa using hpositive, (Except.ok.inj h).symm⟩

/-- A flag that is set was read. -/
theorem setFlag_ok {text : Bytes} {set : Bool → ContainmentPolicy} {policy : ContainmentPolicy}
    (h : setFlag text set = .ok policy) : ∃ value, policy = set value := by
  rw [setFlag, bind_eq_ok] at h
  obtain ⟨value, -, h⟩ := h
  exact ⟨value, (Except.ok.inj h).symm⟩

/-- A directive that is accepted sets the number of its key to what its value is read as, or it sets a
flag. -/
theorem parsePolicyDirective_ok {policy policy' : ContainmentPolicy} {key value : Bytes}
    (h : parsePolicyDirective policy [key, value] = .ok policy') :
    (∃ n : PolicyNumber, ∃ number, key = n.key ∧ parseNumber value = some number ∧
        policy' = n.set policy number) ∨
      ((∀ n : PolicyNumber, key ≠ n.key) ∧ ∀ n : PolicyNumber, n.get policy' = n.get policy) := by
  have hnumber (n : PolicyNumber) {message : String} (hkey : key = n.key)
      (h : setPositive (parseNumber value) message (n.set policy) = .ok policy') :
      ∃ n : PolicyNumber, ∃ number, key = n.key ∧ parseNumber value = some number ∧
        policy' = n.set policy number := by
    obtain ⟨number, hread, -, hset⟩ := setPositive_ok h
    exact ⟨n, number, hkey, hread, hset⟩
  have hflag {flagKey : Bytes} {set : Bool → ContainmentPolicy} (hkey : key = flagKey)
      (hother : ∀ n : PolicyNumber, flagKey ≠ n.key)
      (hset : ∀ b, ∀ n : PolicyNumber, n.get (set b) = n.get policy)
      (h : setFlag value set = .ok policy') :
      (∀ n : PolicyNumber, key ≠ n.key) ∧ ∀ n : PolicyNumber, n.get policy' = n.get policy := by
    obtain ⟨b, rfl⟩ := setFlag_ok h
    exact ⟨hkey ▸ hother, hset b⟩
  -- one case for each key, in the order of the source
  rw [parsePolicyDirective] at h
  split at h
  · exact Or.inl (hnumber .generation ‹_› h)
  split at h
  · exact Or.inr (hflag ‹_› (fun n => by cases n <;> decide) (fun _ n => by cases n <;> rfl) h)
  split at h
  · exact Or.inr (hflag ‹_› (fun n => by cases n <;> decide) (fun _ n => by cases n <;> rfl) h)
  split at h
  · exact Or.inr (hflag ‹_› (fun n => by cases n <;> decide) (fun _ n => by cases n <;> rfl) h)
  split at h
  · exact Or.inl (hnumber .maxBoundaryWeight ‹_› h)
  split at h
  · exact Or.inl (hnumber .maxBoundaryMembers ‹_› h)
  split at h
  · exact Or.inl (hnumber .exactSearchBudget ‹_› h)
  split at h
  · exact Or.inl (hnumber .heuristicBudget ‹_› h)
  split at h
  · exact Or.inl (hnumber .exactInstanceNodeLimit ‹_› h)
  · exact absurd h (by simp [fail])

end Fcfn.ConfigText
