import Fcfn.Runtime.State

/-!
# The coordinator

Ingestion, authorization, planning, transitions and checkpoints. An operation checks, commits its
record, and then publishes to memory. The checks of a transition are a function of the state
(`checkTransition`): it returns the plan and the decision, or the refusal that is recorded. -/

namespace Fcfn

open Words Stateful Tables RuntimeState

/-! ## Ingestion -/

/-- Take in a topology definition. -/
def applyTopology (env : Env) (spec : TopologySpec) : Op TopologyGeneration := do
  let topology ← lift (Topology.build spec)
  let s ← get
  lift (require (s.topology.all fun current => current.generation < topology.generation)
    .staleGeneration "topology generation did not advance")
  commit env .topologyDefinition topology.encode
  modify fun s => { s with topology := some topology }
  return topology.generation

/-- Take in a policy. -/
def applyPolicy (env : Env) (policy : ContainmentPolicy) : Op PolicyGeneration := do
  lift (validatePolicy policy)
  let s ← get
  lift (require (s.policy.generation < policy.generation) .staleGeneration
    "policy generation did not advance")
  commit env .policyDefinition policy.encode
  modify fun s => { s with policy := policy }
  return policy.generation

namespace RuntimeState

/-- The record of an observation that is taken in now. -/
def detectionRecord (s : RuntimeState) (observation : FailureObservation) : DetectionRecord :=
  let record : DetectionRecord := {
    resource := observation.resource
    state := observation.state
    generation := observation.generation
    source_digest := observation.source_digest
    epoch := s.epoch
    boot := s.boot
    sequence := s.sequence + 1 }
  { record with record_digest := record.computeDigest }

/-- Note that a resource's evidence was confirmed in this boot. -/
def confirm (s : RuntimeState) (resource : ResourceId) : RuntimeState :=
  { s with
    evidence_confirmation := (resource, s.boot.id) ::
      s.evidence_confirmation.filter fun entry => entry.1 != resource }

/-- Publish evidence that an observation changed. -/
def publishEvidence (s : RuntimeState) (evidence : EvidenceVector) (record : DetectionRecord) :
    RuntimeState :=
  evictBoundedTables { s with
    evidence := evidence
    evidence_revision := s.evidence_revision + 1
    evidence_conflict := false
    detections := s.detections ++ [record] }

end RuntimeState

/-- Take in an observation. -/
def recordDetection (env : Env) (observation : FailureObservation) : Op DetectionRecord := do
  lift (require (observation.generation != 0) .invalidArgument
    "observation generation must be non-zero")
  let s ← get
  match s.evidence.merged observation with
  | .error status =>
    if status.code = .conflict then
      modify fun s => { s with evidence_conflict := true }
    throw status
  | .ok merged =>
    let record := s.detectionRecord observation
    if merged.digest ≠ s.evidence.digest then
      commit env .detectionRecord (encodeDetection record)
      let s ← get
      lift (require (s.sequence == record.sequence) .internal
        "durable sequence diverged from the published sequence")
      modify fun s => s.publishEvidence merged record
    modify fun s => s.confirm observation.resource
    return record

/-! ## Authorization -/

namespace RuntimeState

/-- The authorization that is issued next. -/
def authorizationRecord (s : RuntimeState) (now : UInt64) : AuthorizationRecord where
  id := s.authorization_counter + 1
  authority := s.currentAuthority
  issued_sequence := s.sequence
  issued_at_millis := now
  expires_at_millis := now + s.config.authorization_lease_millis

/-- Publish an authorization. -/
def publishAuthorization (s : RuntimeState) (record : AuthorizationRecord) : RuntimeState :=
  { s with
    authorization_counter := s.authorization_counter + 1
    authorizations := s.authorizations ++ [{ record := record }] }

end RuntimeState

/-- Issue an authorization under the authority in force. -/
def authorize (env : Env) : Op AuthorizationRecord := do
  modify fun s => s.dropExpired env.now_millis
  let s ← get
  lift (require (s.authorizations.length < s.config.max_active_authorizations) .exhausted
    "authorization table is full")
  let record := s.authorizationRecord env.now_millis
  modify fun s => s.publishAuthorization record
  return record

/-! ## Planning -/

namespace RuntimeState

/-- What the next plan is computed from. The boundary of a plan has the plan's generation. -/
def planInputs (s : RuntimeState) (topology : Topology) : PlanInputs where
  topology := topology
  evidence := s.evidence
  policy := s.policy
  freshness := {
    confirmations := some s.evidence_confirmation
    current_boot := s.boot
    require_current_boot_confirmation := s.config.require_evidence_confirmation_in_current_boot }
  boundary_generation := s.plan_counter + 1

/-- Mark a plan that was computed while contradictory evidence is pending. -/
def markConflicting (plan : ContainmentPlan) : ContainmentPlan :=
  let plan := { plan with
    currency := .conflicting
    claim :=
      if plan.claim = .invalid ∨ plan.claim = .unsupported then plan.claim else .indeterminate }
  (addReason plan .evidenceConflicting
    "contradictory evidence was rejected for at least one resource").sealed

/-- The next plan over a topology. -/
def nextPlan (s : RuntimeState) (topology : Topology) : Result ContainmentPlan := do
  let computed ← computePlan (s.planInputs topology) s.currentAuthority (s.plan_counter + 1)
  return if s.evidence_conflict then markConflicting computed.plan else computed.plan

/-- Publish a plan. -/
def publishPlan (s : RuntimeState) (plan : ContainmentPlan) : RuntimeState :=
  evictBoundedTables { s with
    plan_counter := s.plan_counter + 1
    plans := s.plans ++ [plan] }

end RuntimeState

/-- Compute and record a plan. -/
def plan (env : Env) (authorization : AuthorizationId) : Op ContainmentPlan := do
  let _ ← authorized env authorization false
  let s ← get
  match s.topology with
  | none => throw ⟨.unsupported, "no topology definition is loaded"⟩
  | some topology =>
    let plan ← lift (s.nextPlan topology)
    commit env .planDecision plan.encode
    modify fun s => s.publishPlan plan
    return plan

/-! ## Transitions -/

/-- Why a transition is refused, with the decision as far as it was filled in. -/
structure Refusal where
  status : TransitionStatus
  code : StatusCode
  reason : ReasonCode
  text : String
  decision : TransitionDecision

namespace RuntimeState

/-- The decision on a request before anything is checked. -/
def startDecision (s : RuntimeState) (request : TransitionRequest) : TransitionDecision where
  generation := s.transition_counter
  kind := request.kind
  plan_digest := request.plan_digest
  epoch := s.epoch
  boot := s.boot

/-- The decision that names the boundary in force and its effect. -/
def describeCurrent (s : RuntimeState) (decision : TransitionDecision) : TransitionDecision :=
  { decision with
    from_generation := (s.boundary.map ContainmentBoundary.generation).getD 0
    from_digest := (s.boundary.map ContainmentBoundary.digest).getD Digest.zero
    observed_effect_state := s.effect_state }

/-- Whether the boundary of a plan may follow the one in force. -/
def checkKind (s : RuntimeState) (kind : TransitionKind) (plan : ContainmentPlan)
    (decision : TransitionDecision) : Except Refusal Unit :=
  match kind with
  | .expand =>
    if s.boundary.any fun boundary => !plan.boundary.isSupersetOf boundary then
      .error ⟨.invalid, .invalidArgument, .transitionExpandNotASuperset,
        "expansion must contain every current member", decision⟩
    else .ok ()
  | .contract =>
    if s.boundary.all fun boundary =>
        !plan.boundary.isSubsetOf boundary || plan.boundary.sameMembers boundary then
      .error ⟨.invalid, .invalidArgument, .transitionContractNotASubset,
        "contraction must be a proper subset of the current boundary", decision⟩
    else .ok ()
  | .release =>
    if !plan.boundary.members.isEmpty || !plan.isReleasable then
      .error ⟨.denied, .denied, .transitionDeniedActiveFailures,
        "release requires a proven containment plan with an empty boundary", decision⟩
    else .ok ()

/-- The decision that accepts a plan. -/
def acceptedDecision (kind : TransitionKind) (plan : ContainmentPlan)
    (decision : TransitionDecision) : TransitionDecision :=
  let released := kind = .release
  { decision with
    effect_verified := true
    status := .accepted
    code := .ok
    to_released := released
    to_generation := if released then 0 else plan.boundary.generation
    to_digest := plan.boundary.digest
    required_effect_state := if released then .verifiedReleased else .verifiedApplied
    explanation := decision.explanation.add .transitionAccepted kind.token }

/-- The checks of a transition whose authorization holds. -/
def checkTransition (s : RuntimeState) (request : TransitionRequest)
    (decision : TransitionDecision) : Except Refusal (ContainmentPlan × TransitionDecision) :=
  match s.findPlan request.plan with
  | none =>
    .error ⟨.stale, .notFound, .transitionSupersededByNewerPlan,
      "authorizing plan is not retained", decision⟩
  | some plan =>
    let described := s.describeCurrent decision
    let verified := { described with effect_verified := true }
    if plan.digest ≠ request.plan_digest then
      .error ⟨.invalid, .conflict, .transitionSupersededByNewerPlan,
        "plan digest does not match the retained plan", decision⟩
    else if described.from_generation ≠ request.expected_current_boundary then
      .error ⟨.stale, .staleGeneration, .transitionStaleGeneration,
        "current boundary generation does not match the request", described⟩
    else if request.expected_released ≠ s.boundary.isNone then
      .error ⟨.stale, .staleGeneration, .transitionStaleGeneration,
        "current boundary presence does not match the request", described⟩
    else if s.boundary.isSome ∧ isVerifiedEffect s.effect_state = false then
      .error ⟨.indeterminate, .ambiguous, .transitionDeniedUnverifiedEffect,
        "current boundary effect is not verified",
        { described with required_effect_state := .verifiedApplied }⟩
    else
      match s.checkKind request.kind plan verified with
      | .error refusal => .error refusal
      | .ok _ =>
        if ¬ plan.generation > s.boundary_plan ∧ s.boundary_plan ≠ 0 then
          .error ⟨.stale, .staleGeneration, .transitionSupersededByNewerPlan,
            "a newer boundary decision is already in force", verified⟩
        else .ok (plan, acceptedDecision request.kind plan verified)

/-- Publish a decision that refuses. -/
def publishRefusal (s : RuntimeState) (decision : TransitionDecision) : RuntimeState :=
  evictBoundedTables { s with transitions := s.transitions ++ [decision] }

/-- Put the boundary of a plan in force, or none when it is released. -/
def publishBoundary (s : RuntimeState) (plan : ContainmentPlan) (decision : TransitionDecision) :
    RuntimeState :=
  let boundary := if decision.to_released then none else some plan.boundary
  evictBoundedTables { s with
    boundary := boundary
    boundary_plan := plan.generation
    boundary_plan_digest := plan.digest
    boundary_counter := (boundary.map ContainmentBoundary.generation).getD s.boundary_counter
    effect_state := .notRequested
    effect_requires_reverification := false
    transitions := s.transitions ++ [decision] }

end RuntimeState

/-- Record a refusal. -/
def refuseTransition (env : Env) (refusal : Refusal) : Op TransitionDecision := do
  let s ← get
  let decision := { refusal.decision with
    status := refusal.status
    code := refusal.code
    explanation := refusal.decision.explanation.add refusal.reason refusal.text
    sequence := s.sequence }
  commit env .transitionDecision (encodeTransition decision)
  let s ← get
  let decision := { decision with sequence := s.sequence }
  modify fun s => s.publishRefusal decision
  return decision

/-- The record of the boundary that a decision puts in force. -/
def boundaryRecord (plan : ContainmentPlan) (decision : TransitionDecision) : BoundaryDecision where
  plan := plan.generation
  plan_digest := plan.digest
  released := decision.to_released
  boundary_bytes := if decision.to_released then [] else plan.boundary.encode

/-- Record an accepted decision and its boundary, and put the boundary in force. -/
def acceptTransition (env : Env) (plan : ContainmentPlan) (decision : TransitionDecision) :
    Op TransitionDecision := do
  commit env .transitionDecision (encodeTransition decision)
  let s ← get
  let decision := { decision with sequence := s.sequence }
  commit env .boundaryDecision (encodeBoundaryDecision (boundaryRecord plan decision))
  modify fun s => s.publishBoundary plan decision
  return decision

/-- The refusal of a transition whose authorization does not hold. -/
def authorizationRefusal (status : Status) (decision : TransitionDecision) : Refusal where
  status := .stale
  code := status.code
  reason := if status.code = .fenced then .authorityFenced else .authorityStaleEpoch
  text := status.message
  decision := decision

/-- Change the boundary in force to that of a retained plan. Refusals are recorded and returned. -/
def transition (env : Env) (request : TransitionRequest) : Op TransitionDecision := do
  modify countTransition
  let s ← get
  let decision := s.startDecision request
  let (outcome, s') := s.validateAuthorization env.now_millis request.authorization false
  set s'
  match outcome with
  | .error status => refuseTransition env (authorizationRefusal status decision)
  | .ok _ =>
    match s'.checkTransition request decision with
    | .error refusal => refuseTransition env refusal
    | .ok (plan, decision) => acceptTransition env plan decision

/-! ## Checkpoints -/

/-- The durable part of the state. -/
def RuntimeState.durable (s : RuntimeState) : DurableState where
  epoch := s.epoch
  boot := s.boot
  sequence := s.sequence
  evidence_revision := s.evidence_revision
  plan_counter := s.plan_counter
  transition_counter := s.transition_counter
  attempt_counter := s.attempt_counter
  boundary_counter := s.boundary_counter
  authorization_counter := s.authorization_counter
  topology_bytes := (s.topology.map Topology.encode).getD []
  policy_bytes := s.policy.encode
  evidence_bytes := s.evidence.encode
  boundary_bytes := (s.boundary.map ContainmentBoundary.encode).getD []
  boundary_plan := s.boundary_plan
  boundary_plan_digest := s.boundary_plan_digest
  effect_state := s.effect_state
  plans := s.plans
  attempts := s.attempts
  transitions := s.transitions
  detections := s.detections
  fenced_boots := s.fenced_boots
  active_authorizations := UInt32.ofNat s.authorizations.length

/-- Write a snapshot of the durable state and start a new log segment. -/
def checkpoint (env : Env) : Op Unit := do
  let s ← get
  match s.store with
  | none => throw ⟨.unsupported, "runtime is not durable"⟩
  | some store =>
    let (outcome, store') := store.writeSnapshot env.snapshot (encodeDurableState s.durable)
    set { s with store := some store' }
    lift outcome
    modify fun s => { s with sequence := store'.last_sequence }

end Fcfn
