import Fcfn.Core.Canonical

/-!
# Policy

The bounded containment policy, its rules, and its canonical form. -/

namespace Fcfn

open Words Codec

/-- Bounded containment policy. -/
structure ContainmentPolicy where
  generation : PolicyGeneration
  require_failure_source_inclusion : Bool := true
  allow_protected_inclusion : Bool := false
  minimize_protected_inclusions : Bool := true
  max_boundary_weight : UInt64 := UInt64.ofNat kMaxPlanWeightSum
  max_boundary_members : UInt64 := UInt64.ofNat kMaxBoundaryMembers
  exact_search_budget : UInt64 := UInt64.ofNat kMaxExactSearchNodesDefault
  heuristic_budget : UInt64 := UInt64.ofNat kMaxHeuristicIterationsDefault
  exact_instance_node_limit : UInt64 := 4096
  deriving DecidableEq, Repr

/-- The domain rules of a policy. -/
def validatePolicy (policy : ContainmentPolicy) : Result Unit := do
  require (policy.generation != 0) .invalidArgument "policy generation must be non-zero"
  require (policy.max_boundary_members != 0 &&
      policy.max_boundary_members.toNat ≤ kMaxBoundaryMembers)
    .invalidArgument "policy member bound out of range"
  require (policy.max_boundary_weight != 0 &&
      policy.max_boundary_weight.toNat ≤ kMaxPlanWeightSum)
    .invalidArgument "policy weight bound out of range"
  require (policy.exact_search_budget != 0 && policy.heuristic_budget != 0)
    .invalidArgument "policy search budget must be non-zero"
  require (policy.exact_instance_node_limit != 0 &&
      policy.exact_instance_node_limit.toNat ≤ kMaxTopologyNodes)
    .invalidArgument "policy instance node limit out of range"

/-- The policy a runtime starts with before any update is applied. -/
def defaultPolicy : ContainmentPolicy where
  generation := 1

/-- The default policy meets its own rules. -/
theorem validatePolicy_defaultPolicy : validatePolicy defaultPolicy = .ok () := by decide

namespace ContainmentPolicy

/-- Canonical byte encoding. -/
def encode (policy : ContainmentPolicy) : Bytes :=
  Write.u64 policy.generation ++ Write.boolean policy.require_failure_source_inclusion ++
    Write.boolean policy.allow_protected_inclusion ++
    Write.boolean policy.minimize_protected_inclusions ++ Write.u64 policy.max_boundary_weight ++
    Write.u64 policy.max_boundary_members ++ Write.u64 policy.exact_search_budget ++
    Write.u64 policy.heuristic_budget ++ Write.u64 policy.exact_instance_node_limit

/-- Canonical digest. -/
def digest (policy : ContainmentPolicy) : Digest := digestOf policy.encode

/-- Read a policy. -/
def read : Read ContainmentPolicy := do
  let generation ← Read.u64
  let require_failure_source_inclusion ← Read.boolean
  let allow_protected_inclusion ← Read.boolean
  let minimize_protected_inclusions ← Read.boolean
  let max_boundary_weight ← Read.u64
  let max_boundary_members ← Read.u64
  let exact_search_budget ← Read.u64
  let heuristic_budget ← Read.u64
  let exact_instance_node_limit ← Read.u64
  return ⟨generation, require_failure_source_inclusion, allow_protected_inclusion,
    minimize_protected_inclusions, max_boundary_weight, max_boundary_members, exact_search_budget,
    heuristic_budget, exact_instance_node_limit⟩

/-- Decode a canonical encoding and validate it. -/
def decode (bytes : Bytes) : Result ContainmentPolicy := do
  let policy ← Read.document read bytes
  validatePolicy policy
  return policy

/-! ## Round trip -/

/-- A policy is read back. -/
theorem reads (policy : ContainmentPolicy) : Reads read policy.encode policy := by
  unfold read encode
  simp only [List.append_assoc]
  refine (reads_u64 _).bind ((reads_boolean _).bind ((reads_boolean _).bind ((reads_boolean _).bind
    ((reads_u64 _).bind ((reads_u64 _).bind ((reads_u64 _).bind ((reads_u64 _).bind
      ((reads_u64 _).bind_pure ?_))))))))
  exact Reads.pure _

/-- The canonical encoding of a policy is decoded exactly when the policy meets its rules. -/
theorem decode_encode (policy : ContainmentPolicy) :
    decode policy.encode = (validatePolicy policy).map fun _ => policy := by
  unfold decode Read.document
  rw [policy.reads.runAll]
  change (validatePolicy policy >>= fun _ => pure policy) = _
  cases validatePolicy policy <;> rfl

end ContainmentPolicy

end Fcfn
