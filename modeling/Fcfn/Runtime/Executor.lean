import Fcfn.Runtime.State

/-!
# The apply protocol

The path from a containment intent to verified effect. The checks of each handler are functions of
the state; a report is taken into the retained attempt before its record is committed, as in the
source, so a failed commit leaves the attempt changed. -/

namespace Fcfn

open Words Stateful RuntimeState

namespace RuntimeState

/-- Whether a completion belongs to this incarnation, as the sender sees it. -/
def checkAttemptAuthority (s : RuntimeState) (expected_epoch : CoordinatorEpoch)
    (expected_boot : BootIdentity) : Result Unit := do
  require (expected_epoch == s.epoch) .staleGeneration
    "completion carries a stale coordinator epoch"
  require (expected_boot == s.boot) .fenced "completion belongs to another process incarnation"

/-- Whether the effect state lets an attempt be submitted. -/
def mayAttempt : EffectState → Bool
  | .submitted | .acknowledged | .verifiedApplied | .verifiedReleased | .fenced
  | .superseded => false
  | .notRequested | .failed | .ambiguous => true

/-- Whether a plan is the decision in force. -/
def isCurrentDecision (s : RuntimeState) (boundary : ContainmentBoundary) (plan : ContainmentPlan) :
    Bool :=
  s.boundary_plan == plan.generation && boundary.generation == plan.boundary.generation

/-- The retained plan an attempt is submitted for. It is the decision in force, or one whose
membership is that of the boundary in force: a re-assertion. -/
def checkSubmit (s : RuntimeState) (plan : PlanGeneration) (plan_digest : Digest) :
    Result ContainmentPlan :=
  match s.findPlan plan with
  | none => fail .notFound "authorizing plan is not retained"
  | some plan =>
    if plan.digest ≠ plan_digest then
      fail .conflict "plan digest does not match the retained plan"
    else
      match s.boundary with
      | none => fail .staleGeneration "no containment boundary is current"
      | some boundary => do
        require (s.isCurrentDecision boundary plan || plan.boundary.sameMembers boundary)
          .staleGeneration "plan is not the current boundary decision"
        require (mayAttempt s.effect_state) .alreadyExists
          "an effect attempt is already in flight or complete"
        return plan

/-- The attempt that is submitted under the current counter. -/
def newAttempt (s : RuntimeState) (plan : ContainmentPlan) (now : UInt64) : ApplyAttempt where
  id := ⟨plan.generation, s.attempt_counter⟩
  plan_digest := plan.digest
  boundary_digest := plan.boundary.digest
  boundary_generation := plan.boundary.generation
  epoch := s.epoch
  boot := s.boot
  state := .submitted
  submitted_sequence := s.sequence + 1
  submitted_at_millis := now
  explanation := Explanation.empty.add .applySubmitted
    "containment intent handed to the enforcement plane"

/-- Publish a submitted attempt. -/
def publishAttempt (s : RuntimeState) (attempt : ApplyAttempt) : RuntimeState :=
  evictBoundedTables { s with attempts := s.attempts ++ [attempt], effect_state := .submitted }

end RuntimeState

/-- Hand the intent of a retained plan to the enforcement plane. -/
def submitApply (env : Env) (authorization : AuthorizationId) (plan : PlanGeneration)
    (plan_digest : Digest) : Op ApplyAttempt := do
  let _ ← authorized env authorization true
  let s ← get
  let plan ← lift (s.checkSubmit plan plan_digest)
  modify countAttempt
  let s ← get
  let attempt := s.newAttempt plan env.later_millis
  commit env .applyAttempt (encodeAttempt attempt)
  modify fun s => s.publishAttempt attempt
  return attempt

namespace RuntimeState

/-- The retained attempt that an acknowledgement is for. -/
def checkAcknowledgement (s : RuntimeState) (ack : ApplyAcknowledgement) : Result ApplyAttempt :=
  match s.findAttempt ack.id with
  | none => fail .notFound "apply attempt is not retained"
  | some attempt => do
    s.checkAttemptAuthority ack.expected_epoch ack.expected_boot
    require (!attempt.terminal) .alreadyExists "attempt already reached a terminal state"
    require (ack.applier_sequence > attempt.applier_sequence) .sequenceRegression
      "applier sequence did not advance"
    return attempt

end RuntimeState

/-- An attempt whose acknowledgement observed another boundary. -/
def ApplyAttempt.mismatched (attempt : ApplyAttempt) : ApplyAttempt :=
  { attempt with
    state := .ambiguous
    explanation := attempt.explanation.add .effectVerificationDigestMismatch
      "acknowledgement observed a different boundary than the intent" }

/-- An attempt whose acknowledgement observed its boundary. -/
def ApplyAttempt.acknowledged (attempt : ApplyAttempt) (ack : ApplyAcknowledgement)
    (now : UInt64) : ApplyAttempt :=
  { attempt with
    applier_epoch := ack.applier_epoch
    applier_boot := ack.applier_boot
    applier_sequence := ack.applier_sequence
    observed_boundary_digest := ack.observed_boundary_digest
    acknowledged_at_millis := now
    state := if ack.accepted then .acknowledged else .failed
    explanation :=
      if ack.accepted then attempt.explanation.add .applyAcknowledged
        "enforcement plane acknowledged the request; effect is not yet verified"
      else attempt.explanation.add .effectNotApplied "enforcement plane refused the request" }

/-- Take in the enforcement plane's acknowledgement of an attempt. -/
def acknowledge (env : Env) (ack : ApplyAcknowledgement) : Op ApplyAttempt := do
  let s ← get
  let attempt ← lift (s.checkAcknowledgement ack)
  if ack.observed_boundary_digest ≠ attempt.boundary_digest then
    modify fun s => s.setAttempt ack.id attempt.mismatched
    commit env .applyAcknowledgement (encodeAttempt attempt.mismatched)
    throw ⟨.conflict, "acknowledgement boundary digest does not match the intent"⟩
  else
    let attempt := attempt.acknowledged ack env.now_millis
    modify fun s => s.setAttempt ack.id attempt
    commit env .applyAcknowledgement (encodeAttempt attempt)
    modify recomputeEffectState
    return attempt

namespace RuntimeState

/-- Whether an attempt in a state can still be verified. -/
def checkVerifiable : EffectState → Result Unit
  | .verifiedApplied | .verifiedReleased =>
    fail .alreadyExists "attempt already has a verified effect"
  | .fenced | .superseded => fail .fenced "attempt was invalidated by a later decision"
  | .notRequested | .submitted | .acknowledged | .failed | .ambiguous => .ok ()

/-- The retained attempt that an effect report is for. -/
def checkVerification (s : RuntimeState) (report : EffectVerification) : Result ApplyAttempt :=
  match s.findAttempt report.id with
  | none => fail .notFound "apply attempt is not retained"
  | some attempt => do
    s.checkAttemptAuthority report.expected_epoch report.expected_boot
    checkVerifiable attempt.state
    require (report.applier_sequence > attempt.applier_sequence) .sequenceRegression
      "applier sequence did not advance"
    return attempt

end RuntimeState

/-- The state and the reason that an effect report gives an attempt. -/
def observedState (observation : EffectObservation) (digest_matches : Bool) :
    EffectState × ReasonCode × String :=
  match observation with
  | .applied =>
    if digest_matches then
      (.verifiedApplied, .effectVerified,
        "enforcement plane observed the intended boundary applied")
    else
      (.ambiguous, .effectVerificationDigestMismatch, "observed boundary differs from the intent")
  | .released =>
    if digest_matches then
      (.verifiedReleased, .effectVerified, "enforcement plane observed the boundary released")
    else
      (.ambiguous, .effectVerificationDigestMismatch, "observed release differs from the intent")
  | .notApplied =>
    (.failed, .effectNotApplied, "enforcement plane reports the boundary is not applied")
  | .partiallyApplied | .unknown =>
    (.ambiguous, .effectAmbiguous, "effect state is not provable from the report")

/-- The text of the refusal of a report that observed another boundary. -/
def mismatchText (observation : EffectObservation) (digest_matches : Bool) : Option String :=
  match observation with
  | .applied =>
    if digest_matches then none
    else some "observed boundary digest does not match the intent"
  | .released =>
    if digest_matches then none else some "observed release digest does not match the intent"
  | .notApplied | .partiallyApplied | .unknown => none

/-- An attempt with an effect report taken in. -/
def ApplyAttempt.observed (attempt : ApplyAttempt) (report : EffectVerification) (now : UInt64) :
    ApplyAttempt :=
  let digest_matches := report.observed_boundary_digest = attempt.boundary_digest
  let (state, reason, text) := observedState report.observation digest_matches
  { attempt with
    applier_epoch := report.applier_epoch
    applier_boot := report.applier_boot
    applier_sequence := report.applier_sequence
    observed_boundary_digest := report.observed_boundary_digest
    verified_at_millis := now
    state := state
    explanation := attempt.explanation.add reason text }

/-- Adopt the plan of a verified attempt when its membership is that of the boundary in force. -/
def RuntimeState.adoptVerified (s : RuntimeState) (attempt : ApplyAttempt) : RuntimeState :=
  if isVerifiedEffect attempt.state then
    let s := { s with effect_requires_reverification := false }
    match s.findPlan attempt.id.plan, s.boundary with
    | some plan, some boundary =>
      if plan.boundary.sameMembers boundary then
        { s with
          boundary := some plan.boundary
          boundary_plan := plan.generation
          boundary_plan_digest := plan.digest
          boundary_counter := plan.boundary.generation }
      else s
    | _, _ => s
  else s

/-- Take in the enforcement plane's report of an effect. -/
def verifyEffect (env : Env) (report : EffectVerification) : Op ApplyAttempt := do
  let s ← get
  let before ← lift (s.checkVerification report)
  let attempt := before.observed report env.now_millis
  modify fun s => s.setAttempt report.id attempt
  commit env .effectVerification (encodeAttempt attempt)
  match mismatchText report.observation
      (report.observed_boundary_digest = before.boundary_digest) with
  | some text =>
    modify recomputeEffectState
    throw ⟨.conflict, text⟩
  | none =>
    modify fun s => (s.adoptVerified attempt).recomputeEffectState
    return attempt

end Fcfn
