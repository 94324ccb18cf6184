import Fcfn.Lib.Runs
import Fcfn.Runtime.Recovery

/-!
# The system

A store and at most one live runtime, over any sequence of calls, crashes and opens. A step is a
function of the system and the event, so a run is a list of events. -/

namespace Fcfn

open Words Stateful RuntimeState

/-- A call of a live runtime. -/
inductive Call
  | applyTopology (spec : TopologySpec)
  | applyPolicy (policy : ContainmentPolicy)
  | recordDetection (observation : FailureObservation)
  | authorize
  | plan (authorization : AuthorizationId)
  | transition (request : TransitionRequest)
  | submitApply (authorization : AuthorizationId) (plan : PlanGeneration) (plan_digest : Digest)
  | acknowledge (ack : ApplyAcknowledgement)
  | verifyEffect (report : EffectVerification)
  | checkpoint
  deriving DecidableEq

/-- What a step returns when it succeeds. -/
inductive Reply
  | opened | crashed | checkpointed
  | topology (generation : TopologyGeneration)
  | policy (generation : PolicyGeneration)
  | detection (record : DetectionRecord)
  | authorization (record : AuthorizationRecord)
  | plan (plan : ContainmentPlan)
  | transition (decision : TransitionDecision)
  | submitted (attempt : ApplyAttempt)
  | acknowledged (attempt : ApplyAttempt)
  | verified (attempt : ApplyAttempt)

/-- Whether a reply accepts what was asked for. -/
def Reply.accepts : Result Reply → Bool
  | .ok (.transition decision) => decision.status == .accepted
  | .ok _ => true
  | .error _ => false

/-- Perform a call. -/
def perform (env : Env) : Call → Op Reply
  | .applyTopology spec => .topology <$> applyTopology env spec
  | .applyPolicy policy => .policy <$> applyPolicy env policy
  | .recordDetection observation => .detection <$> recordDetection env observation
  | .authorize => .authorization <$> authorize env
  | .plan authorization => .plan <$> plan env authorization
  | .transition request => .transition <$> transition env request
  | .submitApply authorization plan plan_digest =>
    .submitted <$> submitApply env authorization plan plan_digest
  | .acknowledge ack => .acknowledged <$> acknowledge env ack
  | .verifyEffect report => .verified <$> verifyEffect env report
  | .checkpoint => (fun _ => .checkpointed) <$> checkpoint env

/-- The transition would be accepted, if it can be recorded: its authorization holds, and it passes
the checks on the plan, on the boundary in force and on the kind. -/
def RuntimeState.Admits (s : RuntimeState) (env : Env) (request : TransitionRequest) : Prop :=
  (s.countTransition.validateAuthorization env.now_millis request.authorization false).1.isOk ∧
    (s.countTransition.checkTransition request (s.countTransition.startDecision request)).isOk

instance RuntimeState.Admits.instDecidable (s : RuntimeState) (env : Env)
    (request : TransitionRequest) : Decidable (s.Admits env request) :=
  inferInstanceAs (Decidable (_ ∧ _))

/-- What happens to the system. -/
inductive Event
  /-- A process opens a runtime on the store. -/
  | open_ (config : RuntimeConfig) (env : Env) (boot : BootIdentity)
  | call (env : Env) (call : Call)
  /-- The process stops, in the middle of an append when bytes of a record are left. -/
  | crash (torn_bytes : ℕ)

/-- The files of the store and the runtime of the live process. -/
structure System where
  disk : Disk := {}
  runtime : Option RuntimeState := none

namespace System

/-- Whether the live runtime keeps durable state. -/
def durable (sys : System) : Bool := sys.runtime.any fun s => s.store.isSome

/-- The files once a process has stopped. A runtime without a store leaves them alone. -/
def diskAfterCrash (sys : System) (torn_bytes : ℕ) : Disk :=
  if sys.runtime.any fun s => s.store.isSome then { sys.disk with torn_bytes := torn_bytes }
  else sys.disk

/-- One step. A store is open in at most one process, and a call needs a live runtime. -/
def step (sys : System) : Event → Result Reply × System
  | .open_ config env boot =>
    match sys.runtime with
    | some _ => (fail .alreadyExists "store is already open by a live process", sys)
    | none =>
      let (outcome, disk) := openRuntime config env boot sys.disk
      match outcome with
      | .error status => (.error status, { disk := disk })
      | .ok s => (.ok .opened, { disk := disk, runtime := some s })
  | .call env call =>
    match sys.runtime with
    | none => (fail .notFound "no runtime is open", sys)
    | some s =>
      let (outcome, s') := exec (perform env call) s
      (outcome, { disk := s'.diskOr sys.disk, runtime := some s' })
  | .crash torn_bytes => (.ok .crashed, { disk := sys.diskAfterCrash torn_bytes })

/-- The system after one step. -/
def next (sys : System) (event : Event) : System := (sys.step event).2

/-- What one step returns. -/
def reply (sys : System) (event : Event) : Result Reply := (sys.step event).1

end System

/-! ## A small deployment

One containable resource and no obligations, under a clock that stands still and a file system that
does not fail: the shortest runs that show what a sequence of calls leads to. -/

namespace Sample

/-- A clock that stands still and a file system that does not fail. -/
def env : Env := { now_millis := 10, later_millis := 11, append_fails := fun _ => false }

/-- The resource. -/
def resource : ResourceId := bytesOf "a"

/-- A durable runtime over the resource. -/
def config : RuntimeConfig := { topology := ⟨1, [⟨resource, true, 3, false, .complete⟩], []⟩ }

/-- The boot identity of an incarnation. -/
def boot (id : BootId) : BootIdentity := ⟨id, 1⟩

/-- Open the store. -/
def opens (id : BootId) : Event := .open_ config env (boot id)

/-- A call. -/
def does (call : Call) : Event := .call env call

/-- Report the resource. -/
def detects (generation : EvidenceGeneration) (state : EvidenceState) : Event :=
  does (.recordDetection ⟨resource, state, generation, Digest.zero⟩)

/-- The plan of a generation that is retained after a run. -/
def planAfter (events : List Event) (generation : PlanGeneration) : Option ContainmentPlan :=
  (Runs.exec System.next {} events).runtime.bind fun s => s.findPlan generation

/-- The digest of a plan. -/
def planDigest (events : List Event) (generation : PlanGeneration) : Digest :=
  ((planAfter events generation).map ContainmentPlan.digest).getD Digest.zero

/-- The digest of the boundary of a plan. -/
def boundaryDigest (events : List Event) (generation : PlanGeneration) : Digest :=
  ((planAfter events generation).map fun plan => plan.boundary.digest).getD Digest.zero

/-- Go on with a transition to a plan, expecting a boundary generation in force, or none. -/
def thenTransition (kind : TransitionKind) (plan : PlanGeneration)
    (expected : Option BoundaryGeneration) (authorization : AuthorizationId)
    (events : List Event) : List Event :=
  events ++ [does (.transition ⟨kind, plan, planDigest events plan, expected.getD 0,
    expected.isNone, authorization⟩)]

/-- Go on with the submission of a plan. -/
def thenSubmit (plan : PlanGeneration) (authorization : AuthorizationId) (events : List Event) :
    List Event :=
  events ++ [does (.submitApply authorization plan (planDigest events plan))]

/-- Go on with an acknowledgement that the boundary of a plan was received. -/
def thenAcknowledge (id : ApplyAttemptId) (epoch : CoordinatorEpoch) (sequence : Sequence)
    (accepted : Bool) (events : List Event) : List Event :=
  events ++ [does (.acknowledge ⟨id, epoch, boot epoch, 1, boot 9, sequence,
    boundaryDigest events id.plan, accepted⟩)]

/-- Go on with a report of what was observed of the boundary of a plan. -/
def thenVerify (id : ApplyAttemptId) (epoch : CoordinatorEpoch) (sequence : Sequence)
    (observation : EffectObservation) (events : List Event) : List Event :=
  events ++ [does (.verifyEffect ⟨id, epoch, boot epoch, 1, boot 9, sequence,
    boundaryDigest events id.plan, observation⟩)]

/-- The resource has failed and a first plan was computed. -/
def planned : List Event :=
  [opens 1, detects 1 .present, does .authorize, does (.plan 1)]

/-- The boundary of the first plan is in force and an attempt to apply it was submitted. -/
def submitted : List Event := planned |> thenTransition .expand 1 none 1 |> thenSubmit 1 1

/-- The runtime restarts with the attempt in flight, and the boundary is applied again. -/
def reasserted : List Event :=
  submitted ++ [does .checkpoint, .crash 0, opens 2, does .authorize] |> thenSubmit 1 2

end Sample

end Fcfn
