import Fcfn.Model.Evidence
import Fcfn.Model.Transition

/-!
# Request arguments

The canonical documents that carry the arguments of the operations. Each decoder undoes its
encoder. -/

namespace Fcfn.Net

open Words Codec

def kMaxEffectObservation : UInt8 := 4
def kMaxEvidenceState : UInt8 := 2
def kMaxTransitionKind : UInt8 := 2

/-- The byte of an observed effect. -/
def observationByte : EffectObservation → UInt8
  | .applied => 0
  | .released => 1
  | .partiallyApplied => 2
  | .notApplied => 3
  | .unknown => 4

/-- The observed effect of a byte. -/
def observationOf (b : UInt8) : EffectObservation :=
  if b = 0 then .applied else if b = 1 then .released else if b = 2 then .partiallyApplied
  else if b = 3 then .notApplied else .unknown

/-! ## Detections -/

/-- The time of an observation is written, and nothing uses what is read. -/
def encodeDetectionArguments (observation : FailureObservation) (observed_at_millis : UInt64) :
    Bytes :=
  Write.resourceId observation.resource ++ (Write.u8 observation.state.toByte ++
    (Write.u64 observation.generation ++ (Write.digest observation.source_digest ++
      Write.u64 observed_at_millis)))

def readDetectionArguments : Read (UInt8 × FailureObservation) := do
  let resource ← Read.resourceId
  let state ← Read.u8
  let generation ← Read.u64
  let source_digest ← Read.digest
  let _ ← Read.u64
  return (state, ⟨resource, .ofByte state, generation, source_digest⟩)

def decodeDetectionArguments (bytes : Bytes) : Result FailureObservation := do
  let (state, observation) ← Read.document readDetectionArguments bytes
  require (state ≤ kMaxEvidenceState) .invalidArgument "invalid evidence state value"
  return observation

/-! ## References -/

def encodeAuthorizationReference (authorization : AuthorizationId) : Bytes :=
  Write.u64 authorization

def decodeAuthorizationReference (bytes : Bytes) : Result AuthorizationId := do
  let authorization ← Read.document Read.u64 bytes
  require (authorization != 0) .unauthorized "authorization reference is zero"
  return authorization

def encodePlanGeneration (generation : PlanGeneration) : Bytes := Write.u64 generation

def decodePlanGeneration (bytes : Bytes) : Result PlanGeneration := do
  let generation ← Read.document Read.u64 bytes
  require (generation != 0) .invalidArgument "plan generation is zero"
  return generation

/-! ## Submissions -/

structure SubmitApplyRequest where
  authorization : AuthorizationId
  plan : PlanGeneration
  plan_digest : Digest
  deriving DecidableEq, Repr

def encodeSubmitApplyArguments (request : SubmitApplyRequest) : Bytes :=
  Write.u64 request.authorization ++ (Write.u64 request.plan ++ Write.digest request.plan_digest)

def readSubmitApplyArguments : Read SubmitApplyRequest := do
  let authorization ← Read.u64
  let plan ← Read.u64
  let plan_digest ← Read.digest
  return ⟨authorization, plan, plan_digest⟩

def decodeSubmitApplyArguments (bytes : Bytes) : Result SubmitApplyRequest := do
  let request ← Read.document readSubmitApplyArguments bytes
  require (request.authorization != 0) .unauthorized "authorization reference is zero"
  return request

/-! ## Transitions -/

def encodeTransitionArguments (request : TransitionRequest) : Bytes :=
  Write.u8 request.kind.toByte ++ (Write.u64 request.plan ++ (Write.digest request.plan_digest ++
    (Write.u64 request.expected_current_boundary ++ (Write.boolean request.expected_released ++
      Write.u64 request.authorization))))

def readTransitionArguments : Read (UInt8 × TransitionRequest) := do
  let kind ← Read.u8
  let plan ← Read.u64
  let plan_digest ← Read.digest
  let expected_current_boundary ← Read.u64
  let expected_released ← Read.boolean
  let authorization ← Read.u64
  return (kind, ⟨.ofByte kind, plan, plan_digest, expected_current_boundary, expected_released,
    authorization⟩)

def decodeTransitionArguments (bytes : Bytes) : Result TransitionRequest := do
  let (kind, request) ← Read.document readTransitionArguments bytes
  require (kind ≤ kMaxTransitionKind) .invalidArgument "invalid transition kind value"
  require (request.authorization != 0) .unauthorized "transition carries no authorization"
  return request

/-! ## Reports of the enforcement plane -/

def encodeBoot (boot : BootIdentity) : Bytes := Write.u64 boot.id ++ Write.u32 boot.process_id

def readBoot : Read BootIdentity := do
  let id ← Read.u64
  let process_id ← Read.u32
  return ⟨id, process_id⟩

def encodeAcknowledgementArguments (ack : ApplyAcknowledgement) : Bytes :=
  Write.u64 ack.id.plan ++ (Write.u64 ack.id.sequence ++ (Write.u64 ack.expected_epoch ++
    (encodeBoot ack.expected_boot ++ (Write.u64 ack.applier_epoch ++ (encodeBoot ack.applier_boot ++
      (Write.u64 ack.applier_sequence ++ (Write.digest ack.observed_boundary_digest ++
        Write.boolean ack.accepted)))))))

def readAcknowledgementArguments : Read ApplyAcknowledgement := do
  let plan ← Read.u64
  let sequence ← Read.u64
  let expected_epoch ← Read.u64
  let expected_boot ← readBoot
  let applier_epoch ← Read.u64
  let applier_boot ← readBoot
  let applier_sequence ← Read.u64
  let observed_boundary_digest ← Read.digest
  let accepted ← Read.boolean
  return ⟨⟨plan, sequence⟩, expected_epoch, expected_boot, applier_epoch, applier_boot,
    applier_sequence, observed_boundary_digest, accepted⟩

def decodeAcknowledgementArguments (bytes : Bytes) : Result ApplyAcknowledgement :=
  Read.document readAcknowledgementArguments bytes

def encodeVerificationArguments (report : EffectVerification) : Bytes :=
  Write.u64 report.id.plan ++ (Write.u64 report.id.sequence ++ (Write.u64 report.expected_epoch ++
    (encodeBoot report.expected_boot ++ (Write.u64 report.applier_epoch ++
      (encodeBoot report.applier_boot ++ (Write.u64 report.applier_sequence ++
        (Write.digest report.observed_boundary_digest ++
          Write.u8 (observationByte report.observation))))))))

def readVerificationArguments : Read (UInt8 × EffectVerification) := do
  let plan ← Read.u64
  let sequence ← Read.u64
  let expected_epoch ← Read.u64
  let expected_boot ← readBoot
  let applier_epoch ← Read.u64
  let applier_boot ← readBoot
  let applier_sequence ← Read.u64
  let observed_boundary_digest ← Read.digest
  let observation ← Read.u8
  return (observation, ⟨⟨plan, sequence⟩, expected_epoch, expected_boot, applier_epoch,
    applier_boot, applier_sequence, observed_boundary_digest, observationOf observation⟩)

def decodeVerificationArguments (bytes : Bytes) : Result EffectVerification := do
  let (observation, report) ← Read.document readVerificationArguments bytes
  require (observation ≤ kMaxEffectObservation) .invalidArgument "invalid effect observation value"
  return report

/-! ## The decoders undo the encoders -/

theorem reads_boot (boot : BootIdentity) : Reads readBoot (encodeBoot boot) boot :=
  (reads_u64 _).bind ((reads_u32 _).bind_pure (Reads.pure _))

/-- A detection of a canonical resource is read back. -/
theorem decodeDetectionArguments_encode (observation : FailureObservation)
    (observed_at_millis : UInt64) (h : isValidResourceId observation.resource = true) :
    decodeDetectionArguments (encodeDetectionArguments observation observed_at_millis) =
      .ok observation := by
  have hstate : observation.state.toByte ≤ kMaxEvidenceState ∧
      EvidenceState.ofByte observation.state.toByte = observation.state := by
    cases observation.state <;> decide
  have hreads : Reads readDetectionArguments
      (encodeDetectionArguments observation observed_at_millis)
      (observation.state.toByte, observation) := by
    refine (reads_resourceId h).bind ((reads_u8 _).bind ((reads_u64 _).bind ((reads_digest _).bind
      ((reads_u64 _).bind_pure ?_))))
    rw [hstate.2]
    exact Reads.pure _
  unfold decodeDetectionArguments Read.document
  rw [hreads.runAll]
  simp [bind, Except.bind, pure, Except.pure, require, hstate.1]

/-- A submission under an authorization is read back. -/
theorem decodeSubmitApplyArguments_encode (request : SubmitApplyRequest)
    (h : request.authorization ≠ 0) :
    decodeSubmitApplyArguments (encodeSubmitApplyArguments request) = .ok request := by
  have hreads : Reads readSubmitApplyArguments (encodeSubmitApplyArguments request) request :=
    (reads_u64 _).bind ((reads_u64 _).bind ((reads_digest _).bind_pure (Reads.pure _)))
  unfold decodeSubmitApplyArguments Read.document
  rw [hreads.runAll]
  simp [bind, Except.bind, pure, Except.pure, require, h]

/-- A transition under an authorization is read back. -/
theorem decodeTransitionArguments_encode (request : TransitionRequest)
    (h : request.authorization ≠ 0) :
    decodeTransitionArguments (encodeTransitionArguments request) = .ok request := by
  have hkind : request.kind.toByte ≤ kMaxTransitionKind ∧
      TransitionKind.ofByte request.kind.toByte = request.kind := by
    cases request.kind <;> decide
  have hreads : Reads readTransitionArguments (encodeTransitionArguments request)
      (request.kind.toByte, request) := by
    refine (reads_u8 _).bind ((reads_u64 _).bind ((reads_digest _).bind ((reads_u64 _).bind
      ((reads_boolean _).bind ((reads_u64 _).bind_pure ?_)))))
    rw [hkind.2]
    exact Reads.pure _
  unfold decodeTransitionArguments Read.document
  rw [hreads.runAll]
  simp [bind, Except.bind, pure, Except.pure, require, hkind.1, h]

/-- An acknowledgement is read back. -/
theorem decodeAcknowledgementArguments_encode (ack : ApplyAcknowledgement) :
    decodeAcknowledgementArguments (encodeAcknowledgementArguments ack) = .ok ack := by
  have hreads : Reads readAcknowledgementArguments (encodeAcknowledgementArguments ack) ack := by
    refine (reads_u64 _).bind ((reads_u64 _).bind ((reads_u64 _).bind ((reads_boot _).bind
      ((reads_u64 _).bind ((reads_boot _).bind ((reads_u64 _).bind ((reads_digest _).bind
        ((reads_boolean _).bind_pure ?_))))))))
    exact Reads.pure _
  exact hreads.runAll _

/-- A verification is read back. -/
theorem decodeVerificationArguments_encode (report : EffectVerification) :
    decodeVerificationArguments (encodeVerificationArguments report) = .ok report := by
  have hobservation : observationByte report.observation ≤ kMaxEffectObservation ∧
      observationOf (observationByte report.observation) = report.observation := by
    cases report.observation <;> decide
  have hreads : Reads readVerificationArguments (encodeVerificationArguments report)
      (observationByte report.observation, report) := by
    refine (reads_u64 _).bind ((reads_u64 _).bind ((reads_u64 _).bind ((reads_boot _).bind
      ((reads_u64 _).bind ((reads_boot _).bind ((reads_u64 _).bind ((reads_digest _).bind
        ((reads_u8 _).bind_pure ?_))))))))
    rw [hobservation.2]
    exact Reads.pure _
  unfold decodeVerificationArguments Read.document
  rw [hreads.runAll]
  simp [bind, Except.bind, pure, Except.pure, require, hobservation.1]

end Fcfn.Net
