import Fcfn.Runtime.Coordinator
import Fcfn.Runtime.Executor

/-!
# Startup and recovery

A runtime is opened on what a store holds: the snapshot is restored, the later records are replayed
(`restore`), and a new incarnation begins (`incarnate`), which fences what was in flight and commits
its startup records (`startup`). The boot identity is an input. -/

namespace Fcfn

open Words Stateful RuntimeState DurableStore

/-- Lifecycle rank used when replaying attempt records: a later rank never regresses to an earlier
one. -/
def effectRank : EffectState → ℕ
  | .notRequested => 0
  | .submitted => 1
  | .acknowledged => 2
  | .ambiguous => 3
  | .failed => 4
  | .fenced => 5
  | .superseded => 6
  | .verifiedApplied => 7
  | .verifiedReleased => 8

namespace RuntimeState

/-- Replay the state of an attempt after an event. -/
def replayAttempt (s : RuntimeState) (attempt : ApplyAttempt) : RuntimeState :=
  match s.findAttempt attempt.id with
  | none => { s with attempts := s.attempts ++ [attempt] }
  | some existing =>
    if effectRank existing.state ≤ effectRank attempt.state then s.setAttempt attempt.id attempt
    else s

/-- Replay an observation; one that the evidence refuses is skipped. -/
def replayDetection (s : RuntimeState) (record : DetectionRecord) : RuntimeState :=
  let merged := s.evidence.merged ⟨record.resource, record.state, record.generation,
    record.source_digest⟩
  { s with
    evidence := match merged with
      | .ok evidence => evidence
      | .error _ => s.evidence
    detections := s.detections ++ [record] }

/-- Replay a boundary decision. A boundary that cannot be decoded leaves the old one in place. -/
def replayBoundary (s : RuntimeState) (decision : BoundaryDecision) : RuntimeState :=
  { s with
    boundary_plan := decision.plan
    boundary_plan_digest := decision.plan_digest
    boundary :=
      if decision.released then none
      else match ContainmentBoundary.decode decision.boundary_bytes with
        | .ok boundary => some boundary
        | .error _ => s.boundary }

/-- Replay a transition decision. -/
def replayTransition (s : RuntimeState) (decision : TransitionDecision) : RuntimeState :=
  { s with
    transition_counter := max s.transition_counter decision.generation
    transitions := s.transitions ++ [decision] }

/-- Fence a boot once. -/
def fenceBoot (boots : List BootId) (boot : BootId) : List BootId :=
  if boot ∈ boots then boots else boots ++ [boot]

/-- Replay one durable record. -/
def applyReplayedFrame (s : RuntimeState) (frame : Frame) : Result RuntimeState :=
  match frame.type with
  | .topologyDefinition => do
    let topology ← Topology.decode frame.payload
    return if s.topology.all fun current => current.generation < topology.generation then
      { s with topology := some topology } else s
  | .policyDefinition => do
    let policy ← ContainmentPolicy.decode frame.payload
    return if s.policy.generation < policy.generation then { s with policy := policy } else s
  | .detectionRecord | .evidenceReconfirmed => do
    let record ← decodeDetection frame.payload
    return s.replayDetection record
  | .planDecision => do
    let plan ← ContainmentPlan.decode frame.payload
    return { s with plans := s.plans ++ [plan] }
  | .boundaryDecision => do
    let decision ← decodeBoundaryDecision frame.payload
    return s.replayBoundary decision
  | .transitionDecision => do
    let decision ← decodeTransition frame.payload
    return s.replayTransition decision
  | .applyAttempt | .applyAcknowledgement | .effectVerification => do
    let attempt ← decodeAttempt frame.payload
    return s.replayAttempt attempt
  | .epochAdvance => do
    let (epoch, boot) ← decodeEpochAdvance frame.payload
    return if s.epoch < epoch then { s with epoch := epoch, last_known_boot := some boot } else s
  | .fence => do
    let boots ← decodeFence frame.payload
    return { s with fenced_boots := boots.foldl fenceBoot s.fenced_boots }
  | .authorizationIssued | .snapshotPayload | .startupMarker | .shutdownMarker => .ok s

/-- Decode a part of a snapshot that is empty when there is none. -/
def decodePart {α : Type} (decode : Bytes → Result α) (bytes : Bytes) : Result (Option α) :=
  if bytes = [] then .ok none
  else do
    let part ← decode bytes
    return some part

/-- The state with what a snapshot holds. -/
def withDurable (s : RuntimeState) (restored : DurableState) (topology : Option Topology)
    (policy : Option ContainmentPolicy) (evidence : Option EvidenceVector)
    (boundary : Option ContainmentBoundary) : RuntimeState :=
  { s with
    epoch := restored.epoch
    sequence := max restored.sequence s.sequence
    evidence_revision := restored.evidence_revision
    plan_counter := restored.plan_counter
    transition_counter := restored.transition_counter
    attempt_counter := restored.attempt_counter
    boundary_counter := restored.boundary_counter
    authorization_counter := restored.authorization_counter
    boundary_plan := restored.boundary_plan
    boundary_plan_digest := restored.boundary_plan_digest
    effect_state := restored.effect_state
    plans := restored.plans
    attempts := restored.attempts
    transitions := restored.transitions
    detections := restored.detections
    fenced_boots := restored.fenced_boots
    topology := topology
    policy := match policy with
      | some policy => if s.policy.generation < policy.generation then policy else s.policy
      | none => s.policy
    evidence := evidence.getD s.evidence
    boundary := boundary }

/-- Restore the payload of a snapshot. -/
def restoreSnapshot (s : RuntimeState) (payload : Bytes) : Result RuntimeState := do
  let restored ← decodeDurableState payload
  let topology ← decodePart Topology.decode restored.topology_bytes
  let policy ← decodePart ContainmentPolicy.decode restored.policy_bytes
  let evidence ← decodePart EvidenceVector.decode restored.evidence_bytes
  let boundary ← decodePart ContainmentBoundary.decode restored.boundary_bytes
  return s.withDurable restored topology policy evidence boundary

end RuntimeState

/-- The policy of a configuration: the zero generation stands for the default policy. -/
def effectivePolicy (policy : ContainmentPolicy) : ContainmentPolicy :=
  if policy.generation = 0 then defaultPolicy else policy

/-- The state before anything is recovered. -/
def RuntimeState.initial (config : RuntimeConfig) : RuntimeState where
  config := config
  policy := effectivePolicy config.policy

/-- The state with the snapshot of a store, if it has one. -/
def restoreFrom (s : RuntimeState) (payload : Bytes) : Result RuntimeState :=
  if payload = [] then .ok s else s.restoreSnapshot payload

/-- The state that a store describes: its snapshot with the later records replayed. -/
def restore (config : RuntimeConfig) (recovery : Recovery) : Result RuntimeState := do
  let s ← restoreFrom { RuntimeState.initial config with
    store := some recovery.store
    sequence := recovery.store.last_sequence } recovery.snapshot_payload
  recovery.replayed.foldlM applyReplayedFrame s

namespace RuntimeState

/-- Fence an attempt that was in flight when the previous incarnation stopped. -/
def fenceAttempt (attempt : ApplyAttempt) : ApplyAttempt :=
  if attempt.terminal then attempt
  else
    { attempt with
      state := .fenced
      explanation := Explanation.empty.add .attemptFencedByRestart
        "attempt was in flight when the previous incarnation stopped" }

/-- Whether an effect state is no longer current after a restart. -/
def mustReverify : EffectState → Bool
  | .verifiedApplied | .verifiedReleased | .submitted | .acknowledged => true
  | .notRequested | .failed | .ambiguous | .fenced | .superseded => false

/-- Begin a new incarnation: a new epoch, a fresh boot identity, and fences for what was in
flight. -/
def incarnate (s : RuntimeState) (boot : BootIdentity) : RuntimeState :=
  let effect_state := s.derivedEffectState
  { s with
    authorizations := []
    epoch := s.epoch + 1
    boot := boot
    fenced_boots := match s.last_known_boot with
      | some last => if last.id = boot.id then s.fenced_boots else fenceBoot s.fenced_boots last.id
      | none => s.fenced_boots
    attempts := s.attempts.map fenceAttempt
    effect_state := if mustReverify effect_state then .ambiguous else effect_state
    effect_requires_reverification :=
      mustReverify effect_state || s.effect_requires_reverification }

end RuntimeState

/-- Take the configured topology when none was recovered. -/
def takeConfigured (env : Env) : Op Unit := do
  let s ← get
  if s.config.topology.nodes ≠ [] ∧ s.topology = none then
    let topology ← lift (Topology.build s.config.topology)
    modify fun s => { s with topology := some topology }
    if s.store.isSome then commit env .topologyDefinition topology.encode

/-- Commit the records that a new incarnation starts with. -/
def beginDurable (env : Env) : Op Unit := do
  let s ← get
  if s.store.isSome then
    modify fun s => { s with policy := effectivePolicy s.policy }
    let s ← get
    commit env .policyDefinition s.policy.encode
    commit env .epochAdvance (encodeEpochAdvance s.epoch s.boot)
    commit env .fence (encodeFence s.fenced_boots)

/-- Bring a new incarnation up. -/
def startup (env : Env) : Op Unit := do
  takeConfigured env
  beginDurable env
  modify evictBoundedTables

/-- The bounds of a configuration. -/
def checkConfig (config : RuntimeConfig) : Result Unit := do
  require (config.max_retained_plans != 0 && config.max_retained_plans ≤ kMaxRetainedPlans)
    .invalidArgument "plan retention bound out of range"
  require (config.max_retained_attempts != 0 &&
      config.max_retained_attempts ≤ kMaxRetainedAttempts)
    .invalidArgument "attempt retention bound out of range"
  require (config.max_active_authorizations != 0 &&
      config.max_active_authorizations ≤ kMaxSessions)
    .invalidArgument "authorization bound out of range"

/-- The state before a new incarnation begins, and the files as recovery leaves them. -/
def recover (config : RuntimeConfig) (disk : Disk) : Result RuntimeState × Disk :=
  match checkConfig config with
  | .error status => (.error status, disk)
  | .ok _ =>
    if config.persist then
      match openStore disk config.allow_torn_tail_recovery with
      | .error status => (.error status, disk)
      | .ok recovery => (restore config recovery, recovery.store.disk)
    else (.ok (RuntimeState.initial config), disk)

/-- The files of a state's store, or the given ones when it keeps no durable state. -/
def RuntimeState.diskOr (s : RuntimeState) (disk : Disk) : Disk :=
  (s.store.map DurableStore.disk).getD disk

/-- Open a runtime on the files of a store. What was committed stays when it fails. -/
def openRuntime (config : RuntimeConfig) (env : Env) (boot : BootIdentity) (disk : Disk) :
    Result RuntimeState × Disk :=
  match recover config disk with
  | (.error status, disk) => (.error status, disk)
  | (.ok s, disk) =>
    let (outcome, s') := exec (startup env) (s.incarnate boot)
    (outcome.map fun _ => s', s'.diskOr disk)

end Fcfn
