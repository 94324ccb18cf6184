import Mathlib.Data.Nat.Basic

/-!
# Outcomes and bounds

Every operation returns a value or a classified status: `Result α` is `Except Status α`. The texts
of the statuses are the source's literals, all shorter than the bound the source truncates at, so
the truncation is not modelled. The bounds of `limits.hpp` that the modelled operations read
follow. -/

namespace Fcfn

/-- Classification of every operation outcome. -/
inductive StatusCode
  | ok | invalidArgument | notFound | alreadyExists | unknown | staleGeneration | conflict
  | unsupported | limitExceeded | exhausted | denied | unauthorized | fenced | corrupt
  | versionUnsupported | sequenceRegression | trailingGarbage | protocolViolation | ioError
  | interrupted | ambiguous | internal
  deriving DecidableEq, Repr

/-- The status codes in the order of their numbers. -/
def statusCodes : List StatusCode :=
  [.ok, .invalidArgument, .notFound, .alreadyExists, .unknown, .staleGeneration, .conflict,
    .unsupported, .limitExceeded, .exhausted, .denied, .unauthorized, .fenced, .corrupt,
    .versionUnsupported, .sequenceRegression, .trailingGarbage, .protocolViolation, .ioError,
    .interrupted, .ambiguous, .internal]

/-- The number of a status code. -/
def StatusCode.toWord (code : StatusCode) : UInt16 := UInt16.ofNat (statusCodes.idxOf code)

/-- The status code of a number. -/
def StatusCode.ofWord (word : UInt16) : StatusCode := statusCodes.getD word.toNat .internal

/-- Every number names its status code, and none is beyond the last. -/
theorem StatusCode.ofWord_toWord (code : StatusCode) :
    StatusCode.ofWord code.toWord = code ∧ code.toWord ≤ StatusCode.internal.toWord := by
  cases code <;> decide

/-- A status code with its detail text. -/
structure Status where
  code : StatusCode
  message : String
  deriving DecidableEq, Repr

/-- Either a value or a classified status. -/
abbrev Result (α : Type) := Except Status α

/-- Refuse with a status. -/
def fail {α : Type} (code : StatusCode) (message : String) : Result α :=
  .error ⟨code, message⟩

/-- Refuse unless a condition holds. -/
def require (condition : Bool) (code : StatusCode) (message : String) : Result Unit :=
  if condition then .ok () else fail code message

@[simp] theorem require_eq_ok {condition : Bool} {code : StatusCode} {message : String}
    {u : Unit} : require condition code message = .ok u ↔ condition = true := by
  cases condition <;> simp [require, fail]

/-- What a computation that starts with another returns when it succeeds. -/
theorem bind_eq_ok {α β : Type} {r : Result α} {f : α → Result β} {b : β} :
    (r >>= f) = .ok b ↔ ∃ a, r = .ok a ∧ f a = .ok b := by
  cases r with
  | error e => simp [bind, Except.bind]
  | ok a => simp [bind, Except.bind]

/-- The value of a computation that succeeds. -/
theorem mem_toOption {α : Type} {r : Result α} {a : α} : a ∈ r.toOption ↔ r = .ok a := by
  cases r <;> simp [Except.toOption]

/-- What a computation that starts with a requirement returns when it succeeds. -/
theorem require_bind_eq_ok {β : Type} {condition : Bool} {code : StatusCode} {message : String}
    {f : Unit → Result β} {b : β} :
    (require condition code message >>= f) = .ok b ↔ condition = true ∧ f () = .ok b := by
  cases condition <;> simp [require, fail, bind, Except.bind]

/-- Returning a value returns it. -/
theorem pure_eq_ok {α : Type} {a b : α} : (pure a : Result α) = .ok b ↔ a = b := by
  simp [pure, Except.pure]

/-- The value of an outcome that is one. -/
def value {α : Type} : (r : Result α) → r.isOk = true → α
  | .ok a, _ => a

/-- An outcome that is a value is its value. -/
theorem eq_ok_value {α : Type} {r : Result α} (h : r.isOk = true) : r = .ok (value r h) := by
  cases r with
  | error e => exact absurd h (by simp [Except.isOk, Except.toBool])
  | ok a => rfl

/-- What a loop keeps when each of its steps keeps it. -/
theorem foldlM_invariant {α β : Type} {f : β → α → Result β} {motive : β → Prop}
    (hstep : ∀ b a b', motive b → f b a = .ok b' → motive b') {as : List α} {b b' : β}
    (hb : motive b) (h : as.foldlM f b = .ok b') : motive b' := by
  induction as generalizing b with
  | nil => simp only [List.foldlM_nil, pure_eq_ok] at h; exact h ▸ hb
  | cons a as ih =>
    simp only [List.foldlM_cons, bind_eq_ok] at h
    obtain ⟨b'', hstep', hrest⟩ := h
    exact ih (hstep b a b'' hb hstep') hrest

/-- The members of a list mapped through a computation that succeeded. -/
theorem mem_of_mapM_ok {α β : Type} {f : α → Result β} {as : List α} {bs : List β}
    (h : as.mapM f = .ok bs) : bs.length = as.length ∧ ∀ b ∈ bs, ∃ a ∈ as, f a = .ok b := by
  induction as generalizing bs with
  | nil => simp only [List.mapM_nil, pure_eq_ok] at h; subst h; simp
  | cons a as ih =>
    simp only [List.mapM_cons, bind_eq_ok, pure_eq_ok] at h
    obtain ⟨b, hb, bs', hbs', rfl⟩ := h
    obtain ⟨hlen, hmem⟩ := ih hbs'
    refine ⟨by simp [hlen], fun x hx => ?_⟩
    rcases List.mem_cons.mp hx with rfl | hx
    · exact ⟨a, by simp, hb⟩
    · obtain ⟨a', ha', hx'⟩ := hmem x hx
      exact ⟨a', List.mem_cons_of_mem _ ha', hx'⟩

/-- A computation mapped over another order of a list gives another order of its results. -/
theorem mapM_ok_of_perm {α β : Type} {f : α → Result β} {as as' : List α} (hperm : as.Perm as')
    {bs : List β} (h : as.mapM f = .ok bs) : ∃ bs', as'.mapM f = .ok bs' ∧ bs.Perm bs' := by
  induction hperm generalizing bs with
  | nil => exact ⟨bs, h, .refl _⟩
  | cons a _ ih =>
    simp only [List.mapM_cons, bind_eq_ok, pure_eq_ok] at h ⊢
    obtain ⟨b, hb, rest, hrest, rfl⟩ := h
    obtain ⟨rest', hrest', hperm⟩ := ih hrest
    exact ⟨b :: rest', ⟨b, hb, rest', hrest', rfl⟩, hperm.cons b⟩
  | swap a a' as =>
    simp only [List.mapM_cons, bind_eq_ok, pure_eq_ok] at h ⊢
    obtain ⟨b', hb', _, ⟨b, hb, rest, hrest, rfl⟩, rfl⟩ := h
    exact ⟨b :: b' :: rest, ⟨b, hb, _, ⟨b', hb', rest, hrest, rfl⟩, rfl⟩, .swap b b' rest⟩
  | trans _ _ ih ih' =>
    obtain ⟨bs₁, h₁, hperm₁⟩ := ih h
    obtain ⟨bs₂, h₂, hperm₂⟩ := ih' h₁
    exact ⟨bs₂, h₂, hperm₁.trans hperm₂⟩

/-- Two computations that succeed with the same values have the same outcome. -/
theorem toOption_eq_of_ok {α : Type} {r r' : Result α} (h : ∀ a, r = .ok a ↔ r' = .ok a) :
    r.toOption = r'.toOption :=
  Option.ext fun a => by rw [← Option.mem_def, ← Option.mem_def, mem_toOption, mem_toOption, h]

/-! ## Bounds -/

def kMaxTopologyNodes : ℕ := 65536
def kMaxTopologyEdges : ℕ := 262144
def kMaxProtectedObligations : ℕ := 4096
def kMaxFailureSources : ℕ := 4096
def kMaxExactSearchNodesDefault : ℕ := 200000
def kMaxHeuristicIterationsDefault : ℕ := 200000
def kMaxBoundaryMembers : ℕ := 8192
def kMaxNodeWeight : ℕ := 1000000
def kMaxPlanWeightSum : ℕ := 1000000000000
def kMaxExplanationItems : ℕ := 64
def kMaxExplanationTextLength : ℕ := 256
def kMaxCutCertificatePathNodes : ℕ := 4096
def kMaxRecordPayloadBytes : ℕ := 16 * 1024 * 1024
def kMaxSnapshotPayloadBytes : ℕ := 256 * 1024 * 1024
def kMaxRetainedPlans : ℕ := 1024
def kMaxRetainedAttempts : ℕ := 4096
def kMaxRetainedTransitions : ℕ := 4096
def kMaxRetainedDetections : ℕ := 4096
def kMaxFencedBoots : ℕ := 1024
def kMaxSessions : ℕ := 256

/-- The largest value of a 64-bit counter. -/
def kMaxUInt64 : ℕ := 18446744073709551615

/-- Addition of 64-bit values with overflow detection. -/
def checkedAdd (a b : ℕ) : Option ℕ :=
  if a > kMaxUInt64 - b then none else some (a + b)

/-- A checked sum is the sum. -/
theorem checkedAdd_eq_some {a b c : ℕ} (h : checkedAdd a b = some c) : c = a + b := by
  rw [checkedAdd] at h
  split at h <;> simp_all

end Fcfn
