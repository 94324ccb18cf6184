import Fcfn.Model.Explanation

/-!
# Apply attempts

The lifecycle of an attempt to have the enforcement plane put a boundary into effect, and the
reports the plane sends back. -/

namespace Fcfn

/-- Effect state of a containment intent. -/
inductive EffectState
  | notRequested | submitted | acknowledged | verifiedApplied | verifiedReleased | failed
  /-- The attempt may or may not have taken effect. -/
  | ambiguous
  /-- Superseded by a later incarnation or epoch. -/
  | fenced
  /-- Replaced by a newer boundary decision. -/
  | superseded
  deriving DecidableEq, Repr

/-- The byte of an effect state. -/
def EffectState.toByte : EffectState → UInt8
  | .notRequested => 0
  | .submitted => 1
  | .acknowledged => 2
  | .verifiedApplied => 3
  | .verifiedReleased => 4
  | .failed => 5
  | .ambiguous => 6
  | .fenced => 7
  | .superseded => 8

/-- The effect state of a byte. -/
def EffectState.ofByte (b : UInt8) : EffectState :=
  if b = 0 then .notRequested else if b = 1 then .submitted else if b = 2 then .acknowledged
  else if b = 3 then .verifiedApplied else if b = 4 then .verifiedReleased
  else if b = 5 then .failed else if b = 6 then .ambiguous else if b = 7 then .fenced
  else .superseded

/-- Whether the enforcement plane has observed the effect. -/
def isVerifiedEffect (value : EffectState) : Bool :=
  value == .verifiedApplied || value == .verifiedReleased

/-- Identity of an apply attempt. -/
structure ApplyAttemptId where
  plan : PlanGeneration
  sequence : AttemptSequence
  deriving DecidableEq, Repr

/-- What the enforcement plane observed. -/
inductive EffectObservation
  | applied | released | partiallyApplied | notApplied | unknown
  deriving DecidableEq, Repr

/-- One attempt to apply a boundary. -/
structure ApplyAttempt where
  id : ApplyAttemptId
  plan_digest : Digest
  boundary_digest : Digest
  boundary_generation : BoundaryGeneration
  epoch : CoordinatorEpoch
  boot : BootIdentity
  state : EffectState := .submitted
  submitted_sequence : Sequence
  applier_epoch : ApplierEpoch := 0
  applier_boot : BootIdentity := ⟨0, 0⟩
  /-- Monotone sequence reported by the enforcement plane for this attempt. -/
  applier_sequence : Sequence := 0
  observed_boundary_digest : Digest := Digest.zero
  submitted_at_millis : UInt64
  acknowledged_at_millis : UInt64 := 0
  verified_at_millis : UInt64 := 0
  explanation : Explanation := .empty
  deriving DecidableEq

/-- Whether an acknowledgement can no longer change the attempt. -/
def ApplyAttempt.terminal (attempt : ApplyAttempt) : Bool :=
  match attempt.state with
  | .notRequested | .submitted | .acknowledged => false
  | .verifiedApplied | .verifiedReleased | .failed | .ambiguous | .fenced | .superseded => true

/-- Report that the enforcement plane received an attempt. -/
structure ApplyAcknowledgement where
  id : ApplyAttemptId
  expected_epoch : CoordinatorEpoch
  expected_boot : BootIdentity
  applier_epoch : ApplierEpoch
  applier_boot : BootIdentity
  applier_sequence : Sequence
  observed_boundary_digest : Digest
  accepted : Bool
  deriving DecidableEq, Repr

/-- Report of the effect that the enforcement plane observed. -/
structure EffectVerification where
  id : ApplyAttemptId
  expected_epoch : CoordinatorEpoch
  expected_boot : BootIdentity
  applier_epoch : ApplierEpoch
  applier_boot : BootIdentity
  applier_sequence : Sequence
  observed_boundary_digest : Digest
  observation : EffectObservation
  deriving DecidableEq, Repr

end Fcfn
