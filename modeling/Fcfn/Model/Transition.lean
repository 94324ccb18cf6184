import Fcfn.Model.Attempt

/-!
# Boundary transitions

Requests to change the current boundary and the decisions on them. -/

namespace Fcfn

/-- How the boundary is to change. -/
inductive TransitionKind
  | expand | contract | release
  deriving DecidableEq, Repr

/-- The byte of a transition kind. -/
def TransitionKind.toByte : TransitionKind → UInt8
  | .expand => 0
  | .contract => 1
  | .release => 2

/-- The transition kind of a byte. -/
def TransitionKind.ofByte (b : UInt8) : TransitionKind :=
  if b = 0 then .expand else if b = 1 then .contract else .release

/-- The token of a transition kind. -/
def TransitionKind.token : TransitionKind → String
  | .expand => "expand"
  | .contract => "contract"
  | .release => "release"

/-- Outcome of a transition request. -/
inductive TransitionStatus
  | accepted | denied | indeterminate | stale | invalid
  deriving DecidableEq, Repr

/-- The byte of a transition status. -/
def TransitionStatus.toByte : TransitionStatus → UInt8
  | .accepted => 0
  | .denied => 1
  | .indeterminate => 2
  | .stale => 3
  | .invalid => 4

/-- The transition status of a byte. -/
def TransitionStatus.ofByte (b : UInt8) : TransitionStatus :=
  if b = 0 then .accepted else if b = 1 then .denied else if b = 2 then .indeterminate
  else if b = 3 then .stale else .invalid

/-- Request to change the current boundary. -/
structure TransitionRequest where
  kind : TransitionKind
  /-- The plan that authorizes the resulting boundary. -/
  plan : PlanGeneration
  plan_digest : Digest
  /-- The boundary generation the caller believes is current. -/
  expected_current_boundary : BoundaryGeneration
  /-- Whether the caller believes that no boundary is current. -/
  expected_released : Bool
  authorization : AuthorizationId
  deriving DecidableEq, Repr

/-- Durable record of the decision on a request. -/
structure TransitionDecision where
  generation : TransitionGeneration
  kind : TransitionKind
  status : TransitionStatus := .invalid
  code : StatusCode := .invalidArgument
  from_generation : BoundaryGeneration := 0
  to_generation : BoundaryGeneration := 0
  to_released : Bool := false
  from_digest : Digest := Digest.zero
  to_digest : Digest := Digest.zero
  plan_digest : Digest
  required_effect_state : EffectState := .notRequested
  observed_effect_state : EffectState := .notRequested
  effect_verified : Bool := false
  epoch : CoordinatorEpoch
  boot : BootIdentity
  sequence : Sequence := 0
  explanation : Explanation := .empty
  deriving DecidableEq

end Fcfn
