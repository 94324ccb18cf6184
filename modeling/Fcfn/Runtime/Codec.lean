import Fcfn.Model.Evidence
import Fcfn.Model.Plan
import Fcfn.Model.Transition

/-!
# Canonical codecs for durable records

The payloads of the records the runtime commits and the payload of its snapshots. The snapshot
holds the counters of the runtime; `decodeDurableState_counters` says that they are read back. -/

namespace Fcfn

open Words Codec

def kMaxEffectState : UInt8 := 8
def kMaxTransitionKind : UInt8 := 2
def kMaxTransitionStatus : UInt8 := 4

/-- Read the explanation of an attempt or a transition. -/
def readExplanation : Read Explanation :=
  Explanation.readWithin "encoded explanation exceeds the bound"

/-- The bytes of a boot identity. -/
def encodeBoot (boot : BootIdentity) : Bytes := Write.u64 boot.id ++ Write.u32 boot.process_id

/-- Read a boot identity. -/
def readBoot : Read BootIdentity := do
  let id ← Read.u64
  let process_id ← Read.u32
  return ⟨id, process_id⟩

theorem reads_boot (boot : BootIdentity) : Reads readBoot (encodeBoot boot) boot :=
  (reads_u64 _).bind ((reads_u32 _).bind_pure (Reads.pure _))

/-! ## Records -/

/-- The payload of a detection record. -/
def encodeDetection (record : DetectionRecord) : Bytes :=
  record.encodeContent ++ Write.digest record.record_digest

/-- Read a detection record; the byte of its state is checked once the record has ended. -/
def readDetection : Read (UInt8 × DetectionRecord) := do
  let resource ← Read.resourceId
  let state ← Read.u8
  let generation ← Read.u64
  let source_digest ← Read.digest
  let epoch ← Read.u64
  let boot ← readBoot
  let sequence ← Read.u64
  let record_digest ← Read.digest
  return (state, ⟨resource, .ofByte state, generation, source_digest, epoch, boot, sequence,
    record_digest⟩)

/-- Decode a detection record. -/
def decodeDetection (bytes : Bytes) : Result DetectionRecord := do
  let (state, record) ← Read.document readDetection bytes
  require (state ≤ EvidenceState.unknown.toByte) .invalidArgument "invalid evidence state value"
  return record

/-- The payload of an apply attempt. -/
def encodeAttempt (attempt : ApplyAttempt) : Bytes :=
  Write.u64 attempt.id.plan ++ Write.u64 attempt.id.sequence ++ Write.digest attempt.plan_digest ++
    Write.digest attempt.boundary_digest ++ Write.u64 attempt.boundary_generation ++
    Write.u64 attempt.epoch ++ encodeBoot attempt.boot ++ Write.u8 attempt.state.toByte ++
    Write.u64 attempt.submitted_sequence ++ Write.u64 attempt.applier_epoch ++
    encodeBoot attempt.applier_boot ++ Write.u64 attempt.applier_sequence ++
    Write.digest attempt.observed_boundary_digest ++ Write.u64 attempt.submitted_at_millis ++
    Write.u64 attempt.acknowledged_at_millis ++ Write.u64 attempt.verified_at_millis ++
    attempt.explanation.encode

/-- Read an apply attempt. -/
def readAttempt : Read ApplyAttempt := do
  let plan ← Read.u64
  let sequence ← Read.u64
  let plan_digest ← Read.digest
  let boundary_digest ← Read.digest
  let boundary_generation ← Read.u64
  let epoch ← Read.u64
  let boot ← readBoot
  let state ← Read.u8
  let submitted_sequence ← Read.u64
  let applier_epoch ← Read.u64
  let applier_boot ← readBoot
  let applier_sequence ← Read.u64
  let observed_boundary_digest ← Read.digest
  let submitted_at_millis ← Read.u64
  let acknowledged_at_millis ← Read.u64
  let verified_at_millis ← Read.u64
  Read.refuse (state > kMaxEffectState) .invalidArgument "invalid effect state value"
  let explanation ← readExplanation
  return {
    id := ⟨plan, sequence⟩
    plan_digest := plan_digest
    boundary_digest := boundary_digest
    boundary_generation := boundary_generation
    epoch := epoch
    boot := boot
    state := .ofByte state
    submitted_sequence := submitted_sequence
    applier_epoch := applier_epoch
    applier_boot := applier_boot
    applier_sequence := applier_sequence
    observed_boundary_digest := observed_boundary_digest
    submitted_at_millis := submitted_at_millis
    acknowledged_at_millis := acknowledged_at_millis
    verified_at_millis := verified_at_millis
    explanation := explanation }

/-- Decode an apply attempt. -/
def decodeAttempt (bytes : Bytes) : Result ApplyAttempt := Read.document readAttempt bytes

/-- The payload of a transition decision. -/
def encodeTransition (decision : TransitionDecision) : Bytes :=
  Write.u64 decision.generation ++ Write.u8 decision.kind.toByte ++
    Write.u8 decision.status.toByte ++ Write.u16 decision.code.toWord ++
    Write.u64 decision.from_generation ++ Write.u64 decision.to_generation ++
    Write.boolean decision.to_released ++ Write.digest decision.from_digest ++
    Write.digest decision.to_digest ++ Write.digest decision.plan_digest ++
    Write.u8 decision.required_effect_state.toByte ++
    Write.u8 decision.observed_effect_state.toByte ++ Write.boolean decision.effect_verified ++
    Write.u64 decision.epoch ++ encodeBoot decision.boot ++ Write.u64 decision.sequence ++
    decision.explanation.encode

/-- Read a transition decision. -/
def readTransition : Read TransitionDecision := do
  let generation ← Read.u64
  let kind ← Read.u8
  let status ← Read.u8
  let code ← Read.u16
  let from_generation ← Read.u64
  let to_generation ← Read.u64
  let to_released ← Read.boolean
  let from_digest ← Read.digest
  let to_digest ← Read.digest
  let plan_digest ← Read.digest
  let required ← Read.u8
  let observed ← Read.u8
  let effect_verified ← Read.boolean
  let epoch ← Read.u64
  let boot ← readBoot
  let sequence ← Read.u64
  Read.refuse (kind > kMaxTransitionKind ∨ status > kMaxTransitionStatus ∨
      required > kMaxEffectState ∨ observed > kMaxEffectState)
    .invalidArgument "invalid transition enum value"
  Read.refuse (code > StatusCode.internal.toWord) .invalidArgument "invalid transition status code"
  let explanation ← readExplanation
  return {
    generation := generation
    kind := .ofByte kind
    status := .ofByte status
    code := .ofWord code
    from_generation := from_generation
    to_generation := to_generation
    to_released := to_released
    from_digest := from_digest
    to_digest := to_digest
    plan_digest := plan_digest
    required_effect_state := .ofByte required
    observed_effect_state := .ofByte observed
    effect_verified := effect_verified
    epoch := epoch
    boot := boot
    sequence := sequence
    explanation := explanation }

/-- Decode a transition decision. -/
def decodeTransition (bytes : Bytes) : Result TransitionDecision :=
  Read.document readTransition bytes

/-- Durable boundary decision: which plan produced the boundary, and the boundary itself. -/
structure BoundaryDecision where
  plan : PlanGeneration
  plan_digest : Digest
  released : Bool
  boundary_bytes : Bytes
  deriving DecidableEq, Repr

/-- The payload of a boundary decision. -/
def encodeBoundaryDecision (decision : BoundaryDecision) : Bytes :=
  Write.u64 decision.plan ++ Write.digest decision.plan_digest ++
    Write.boolean decision.released ++ Write.blob decision.boundary_bytes

/-- Read a boundary decision. -/
def readBoundaryDecision : Read BoundaryDecision := do
  let plan ← Read.u64
  let plan_digest ← Read.digest
  let released ← Read.boolean
  let boundary_bytes ← Read.blob kMaxRecordPayloadBytes
  return ⟨plan, plan_digest, released, boundary_bytes⟩

/-- Decode a boundary decision. -/
def decodeBoundaryDecision (bytes : Bytes) : Result BoundaryDecision :=
  Read.document readBoundaryDecision bytes

/-- The payload of an epoch advance. -/
def encodeEpochAdvance (epoch : CoordinatorEpoch) (boot : BootIdentity) : Bytes :=
  Write.u64 epoch ++ encodeBoot boot

/-- Read an epoch advance. -/
def readEpochAdvance : Read (CoordinatorEpoch × BootIdentity) := do
  let epoch ← Read.u64
  let boot ← readBoot
  return (epoch, boot)

/-- Decode an epoch advance. -/
def decodeEpochAdvance (bytes : Bytes) : Result (CoordinatorEpoch × BootIdentity) := do
  let (epoch, boot) ← Read.document readEpochAdvance bytes
  require (epoch != 0) .invalidArgument "epoch advance carries a zero epoch"
  return (epoch, boot)

/-- The payload of a fence. -/
def encodeFence (boots : List BootId) : Bytes :=
  Write.size boots.length ++ boots.flatMap Write.u64

/-- Read a list of boots; `message` is the text of the refusal of too many. -/
def readFence (message : String) : Read (List BootId) := do
  let count ← Read.count kMaxFencedBoots message
  many Read.u64 count

/-- Decode a fence. -/
def decodeFence (bytes : Bytes) : Result (List BootId) :=
  Read.document (readFence "encoded fence list exceeds the bound") bytes

/-! ## Snapshots -/

/-- Full durable state. -/
structure DurableState where
  epoch : CoordinatorEpoch := 0
  boot : BootIdentity := ⟨0, 0⟩
  sequence : Sequence := 0
  evidence_revision : EvidenceRevision := 0
  plan_counter : PlanGeneration := 0
  transition_counter : TransitionGeneration := 0
  attempt_counter : AttemptSequence := 0
  boundary_counter : BoundaryGeneration := 0
  authorization_counter : Sequence := 0
  topology_bytes : Bytes := []
  policy_bytes : Bytes := []
  evidence_bytes : Bytes := []
  boundary_bytes : Bytes := []
  boundary_plan : PlanGeneration := 0
  boundary_plan_digest : Digest := Digest.zero
  effect_state : EffectState := .notRequested
  plans : List ContainmentPlan := []
  attempts : List ApplyAttempt := []
  transitions : List TransitionDecision := []
  detections : List DetectionRecord := []
  fenced_boots : List BootId := []
  /-- Authorizations active at snapshot time. They are never restored. -/
  active_authorizations : UInt32 := 0

/-- The format version of the durable state. -/
def kDurableStateVersion : UInt32 := 1

/-- The bytes of the counters. -/
def DurableState.encodeCounters (state : DurableState) : Bytes :=
  Write.u64 state.epoch ++ encodeBoot state.boot ++ Write.u64 state.sequence ++
    Write.u64 state.evidence_revision ++ Write.u64 state.plan_counter ++
    Write.u64 state.transition_counter ++ Write.u64 state.attempt_counter ++
    Write.u64 state.boundary_counter ++ Write.u64 state.authorization_counter

/-- The bytes of a table of records. -/
def encodeTable {α : Type} (encode : α → Bytes) (records : List α) : Bytes :=
  Write.size records.length ++ records.flatMap fun record => Write.blob (encode record)

/-- The payload of a snapshot. -/
def encodeDurableState (state : DurableState) : Bytes :=
  Write.u32 kDurableStateVersion ++ state.encodeCounters ++
    (Write.blob state.topology_bytes ++ Write.blob state.policy_bytes ++
      Write.blob state.evidence_bytes ++ Write.blob state.boundary_bytes ++
      Write.u64 state.boundary_plan ++ Write.digest state.boundary_plan_digest ++
      Write.u8 state.effect_state.toByte ++ encodeTable ContainmentPlan.encode state.plans ++
      encodeTable encodeAttempt state.attempts ++ encodeTable encodeTransition state.transitions ++
      encodeTable encodeDetection state.detections ++ encodeFence state.fenced_boots ++
      Write.u32 state.active_authorizations)

/-- The payload of a snapshot is not empty. -/
theorem encodeDurableState_ne_nil (state : DurableState) : encodeDurableState state ≠ [] := by
  have hversion : Write.u32 kDurableStateVersion ≠ [] :=
    fun h => absurd (congrArg List.length h) (by simp [Write.u32])
  simp only [encodeDurableState, List.append_assoc]
  exact List.append_ne_nil_of_left_ne_nil hversion _

/-- Read the counters. -/
def DurableState.readCounters : Read DurableState := do
  let epoch ← Read.u64
  let boot ← readBoot
  let sequence ← Read.u64
  let evidence_revision ← Read.u64
  let plan_counter ← Read.u64
  let transition_counter ← Read.u64
  let attempt_counter ← Read.u64
  let boundary_counter ← Read.u64
  let authorization_counter ← Read.u64
  return {
    epoch := epoch
    boot := boot
    sequence := sequence
    evidence_revision := evidence_revision
    plan_counter := plan_counter
    transition_counter := transition_counter
    attempt_counter := attempt_counter
    boundary_counter := boundary_counter
    authorization_counter := authorization_counter }

/-- Read a table of records; `message` is the text of the refusal of too many. -/
def readTable {α : Type} (decode : Bytes → Result α) (max_entries : ℕ) (message : String) :
    Read (List α) := do
  let count ← Read.count max_entries message
  many (do let bytes ← Read.blob kMaxRecordPayloadBytes; liftM (decode bytes)) count

/-- Read the rest of the durable state. -/
def DurableState.readTables (state : DurableState) : Read DurableState := do
  let topology_bytes ← Read.blob kMaxSnapshotPayloadBytes
  let policy_bytes ← Read.blob kMaxSnapshotPayloadBytes
  let evidence_bytes ← Read.blob kMaxSnapshotPayloadBytes
  let boundary_bytes ← Read.blob kMaxSnapshotPayloadBytes
  let boundary_plan ← Read.u64
  let boundary_plan_digest ← Read.digest
  let effect_state ← Read.u8
  Read.refuse (effect_state > kMaxEffectState) .invalidArgument
    "invalid durable effect state value"
  let plans ← readTable ContainmentPlan.decode kMaxRetainedPlans
    "snapshot plan table exceeds the bound"
  let attempts ← readTable decodeAttempt kMaxRetainedAttempts
    "snapshot attempt table exceeds the bound"
  let transitions ← readTable decodeTransition kMaxRetainedTransitions
    "snapshot transition table exceeds the bound"
  let detections ← readTable decodeDetection kMaxRetainedDetections
    "snapshot detection table exceeds the bound"
  let fenced_boots ← readFence "snapshot fence list exceeds the bound"
  let active_authorizations ← Read.u32
  return { state with
    topology_bytes := topology_bytes
    policy_bytes := policy_bytes
    evidence_bytes := evidence_bytes
    boundary_bytes := boundary_bytes
    boundary_plan := boundary_plan
    boundary_plan_digest := boundary_plan_digest
    effect_state := .ofByte effect_state
    plans := plans
    attempts := attempts
    transitions := transitions
    detections := detections
    fenced_boots := fenced_boots
    active_authorizations := active_authorizations }

/-- Read the format version and the counters. -/
def DurableState.readHeader : Read DurableState := do
  let version ← Read.u32
  Read.refuse (version ≠ kDurableStateVersion) .versionUnsupported
    "durable state version is not supported"
  readCounters

/-- Decode the payload of a snapshot. -/
def decodeDurableState (bytes : Bytes) : Result DurableState :=
  Read.document (DurableState.readHeader >>= DurableState.readTables) bytes

/-- A durable state with nothing but the counters. -/
def DurableState.counters (state : DurableState) : DurableState where
  epoch := state.epoch
  boot := state.boot
  sequence := state.sequence
  evidence_revision := state.evidence_revision
  plan_counter := state.plan_counter
  transition_counter := state.transition_counter
  attempt_counter := state.attempt_counter
  boundary_counter := state.boundary_counter
  authorization_counter := state.authorization_counter

/-- The version and the counters are read back. -/
theorem reads_header (state : DurableState) :
    Reads DurableState.readHeader (Write.u32 kDurableStateVersion ++ state.encodeCounters)
      state.counters := by
  simp only [DurableState.encodeCounters, List.append_assoc]
  refine (reads_u32 _).bind (Reads.skip (reads_refuse (by simp)) ?_)
  refine (reads_u64 _).bind ((reads_boot _).bind ((reads_u64 _).bind ((reads_u64 _).bind
    ((reads_u64 _).bind ((reads_u64 _).bind ((reads_u64 _).bind ((reads_u64 _).bind
      ((reads_u64 _).bind_pure ?_))))))))
  exact Reads.pure _

/-- A snapshot that is read back has the counters that were written. -/
theorem decodeDurableState_counters {state state' : DurableState}
    (h : decodeDurableState (encodeDurableState state) = .ok state') :
    state'.plan_counter = state.plan_counter ∧
      state'.attempt_counter = state.attempt_counter := by
  have htables : Returns state.counters.readTables fun final =>
      final.plan_counter = state.plan_counter ∧ final.attempt_counter = state.attempt_counter := by
    refine Returns.after fun _ => Returns.after fun _ => Returns.after fun _ => Returns.after
      fun _ => Returns.after fun _ => Returns.after fun _ => Returns.after fun _ => Returns.after
      fun _ => Returns.after fun _ => Returns.after fun _ => Returns.after fun _ => Returns.after
      fun _ => Returns.after fun _ => Returns.after fun _ => Returns.pure ⟨rfl, rfl⟩
  rw [decodeDurableState, Read.document, encodeDurableState, (reads_header state).runAll_bind] at h
  exact htables.runAll h

/-! ## What is recovered -/

/-- The byte of an effect state names it. -/
theorem EffectState.ofByte_toByte (state : EffectState) : ofByte state.toByte = state := by
  cases state <;> rfl

/-- The payload of an attempt is decoded as that attempt, or refused. -/
theorem decodeAttempt_recovers {attempt attempt' : ApplyAttempt}
    (hlen : (encodeAttempt attempt).length < 2 ^ 32)
    (h : decodeAttempt (encodeAttempt attempt) = .ok attempt') : attempt' = attempt := by
  have hrecovers : Recovers readAttempt (encodeAttempt attempt) attempt := by
    simp only [encodeAttempt, List.append_assoc]
    refine (reads_u64 _).recovers.bind ((reads_u64 _).recovers.bind ((reads_digest _).recovers.bind
      ((reads_digest _).recovers.bind ((reads_u64 _).recovers.bind ((reads_u64 _).recovers.bind
        ((reads_boot _).recovers.bind ((reads_u8 _).recovers.bind ((reads_u64 _).recovers.bind
          ((reads_u64 _).recovers.bind ((reads_boot _).recovers.bind ((reads_u64 _).recovers.bind
            ((reads_digest _).recovers.bind ((reads_u64 _).recovers.bind ((reads_u64 _).recovers.bind
              ((reads_u64 _).recovers.bind (Recovers.skip recovers_refuse
                ((Explanation.recovers_explanation _).bind_pure ?_)))))))))))))))))
    rw [EffectState.ofByte_toByte]
    exact Recovers.pure _
  rw [decodeAttempt, Read.document] at h
  exact hrecovers.runAll hlen h

/-- The payload of a transition is decoded as that transition, or refused. -/
theorem decodeTransition_recovers {decision decision' : TransitionDecision}
    (hlen : (encodeTransition decision).length < 2 ^ 32)
    (h : decodeTransition (encodeTransition decision) = .ok decision') : decision' = decision := by
  have hkind : TransitionKind.ofByte decision.kind.toByte = decision.kind := by
    cases decision.kind <;> rfl
  have hstatus : TransitionStatus.ofByte decision.status.toByte = decision.status := by
    cases decision.status <;> rfl
  have hrecovers : Recovers readTransition (encodeTransition decision) decision := by
    simp only [encodeTransition, List.append_assoc]
    refine (reads_u64 _).recovers.bind ((reads_u8 _).recovers.bind ((reads_u8 _).recovers.bind
      ((reads_u16 _).recovers.bind ((reads_u64 _).recovers.bind ((reads_u64 _).recovers.bind
        ((reads_boolean _).recovers.bind ((reads_digest _).recovers.bind
          ((reads_digest _).recovers.bind ((reads_digest _).recovers.bind ((reads_u8 _).recovers.bind
            ((reads_u8 _).recovers.bind ((reads_boolean _).recovers.bind ((reads_u64 _).recovers.bind
              ((reads_boot _).recovers.bind ((reads_u64 _).recovers.bind (Recovers.skip recovers_refuse
                (Recovers.skip recovers_refuse ((Explanation.recovers_explanation _).bind_pure
                  ?_))))))))))))))))))
    rw [hkind, hstatus, EffectState.ofByte_toByte, EffectState.ofByte_toByte,
      (StatusCode.ofWord_toWord _).1]
    exact Recovers.pure _
  rw [decodeTransition, Read.document] at h
  exact hrecovers.runAll hlen h

/-- The payload of a detection is decoded as that detection, or refused. -/
theorem decodeDetection_recovers {record record' : DetectionRecord}
    (hlen : (encodeDetection record).length < 2 ^ 32)
    (h : decodeDetection (encodeDetection record) = .ok record') : record' = record := by
  have hstate : EvidenceState.ofByte record.state.toByte = record.state := by
    cases record.state <;> rfl
  have hrecovers : Recovers readDetection (encodeDetection record) (record.state.toByte, record) := by
    have hboot := (reads_boot record.boot).recovers
    simp only [encodeDetection, DetectionRecord.encodeContent, List.append_assoc]
    simp only [encodeBoot] at hboot
    rw [← List.append_assoc (Write.u64 record.boot.id)]
    refine (recovers_resourceId _).bind ((reads_u8 _).recovers.bind ((reads_u64 _).recovers.bind
      ((reads_digest _).recovers.bind ((reads_u64 _).recovers.bind (hboot.bind
        ((reads_u64 _).recovers.bind ((reads_digest _).recovers.bind_pure ?_)))))))
    rw [hstate]
    exact Recovers.pure _
  rw [decodeDetection, bind_eq_ok] at h
  obtain ⟨⟨state, record''⟩, hread, h⟩ := h
  simp only at h
  rw [require_bind_eq_ok, pure_eq_ok] at h
  obtain ⟨-, rfl⟩ := h
  exact (Prod.mk.inj (hrecovers.runAll hlen hread)).2

/-- The payload of a boundary decision is decoded as that decision, or refused. -/
theorem decodeBoundaryDecision_recovers {decision decision' : BoundaryDecision}
    (hlen : (encodeBoundaryDecision decision).length < 2 ^ 32)
    (h : decodeBoundaryDecision (encodeBoundaryDecision decision) = .ok decision') :
    decision' = decision := by
  have hrecovers : Recovers readBoundaryDecision (encodeBoundaryDecision decision) decision := by
    simp only [encodeBoundaryDecision, List.append_assoc]
    exact (reads_u64 _).recovers.bind ((reads_digest _).recovers.bind
      ((reads_boolean _).recovers.bind (recovers_blob.bind_pure (Recovers.pure _))))
  exact hrecovers.runAll hlen h

/-- A table of records is recovered when each record is. -/
theorem recovers_table {α : Type} {encode : α → Bytes} {decode : Bytes → Result α} {bound : ℕ}
    {message : String} (records : List α)
    (h : ∀ record ∈ records, (encode record).length < 2 ^ 32 →
      ∀ record', decode (encode record) = .ok record' → record' = record) :
    Recovers (readTable decode bound message) (encodeTable encode records) records := by
  have hblob : ∀ record ∈ records, Write.blob (encode record) ≠ [] := fun _ _ => blob_ne_nil _
  refine recovers_counted ?_ hblob
  intro record hmem
  refine Recovers.of_length fun hlen => recovers_blob.bind_pure (recovers_liftM (h record hmem ?_))
  rw [Write.blob, List.length_append] at hlen
  omega

/-- A list of boots is recovered. -/
theorem recovers_fence (boots : List BootId) {message : String} :
    Recovers (readFence message) (encodeFence boots) boots :=
  recovers_counted (fun boot _ => (reads_u64 boot).recovers) fun boot _ => by
    rw [← List.length_pos_iff, Write.u64, length_le64]
    omega

/-- The payload of a snapshot is decoded as the state that was saved, or refused. -/
theorem decodeDurableState_recovers {state state' : DurableState}
    (hlen : (encodeDurableState state).length < 2 ^ 32)
    (h : decodeDurableState (encodeDurableState state) = .ok state') : state' = state := by
  have hrecovers : Recovers (DurableState.readHeader >>= DurableState.readTables)
      (encodeDurableState state) state := by
    rw [encodeDurableState]
    refine (reads_header state).recovers.bind ?_
    simp only [List.append_assoc]
    refine recovers_blob.bind (recovers_blob.bind (recovers_blob.bind (recovers_blob.bind
      ((reads_u64 _).recovers.bind ((reads_digest _).recovers.bind ((reads_u8 _).recovers.bind
        (Recovers.skip recovers_refuse ?_)))))))
    refine (recovers_table _ fun _ _ hle _ => ContainmentPlan.decode_recovers hle).bind
      ((recovers_table _ fun _ _ hle _ => decodeAttempt_recovers hle).bind
        ((recovers_table _ fun _ _ hle _ => decodeTransition_recovers hle).bind
          ((recovers_table _ fun _ _ hle _ => decodeDetection_recovers hle).bind
            ((recovers_fence _).bind ((reads_u32 _).recovers.bind_pure ?_)))))
    rw [EffectState.ofByte_toByte]
    exact Recovers.pure _
  rw [decodeDurableState, Read.document] at h
  exact hrecovers.runAll hlen h

/-! ## The records of a startup -/

/-- An epoch advance is decoded unless its epoch is zero. -/
theorem decodeEpochAdvance_encode (epoch : CoordinatorEpoch) (boot : BootIdentity) :
    decodeEpochAdvance (encodeEpochAdvance epoch boot) =
      (require (epoch != 0) .invalidArgument "epoch advance carries a zero epoch").map
        fun _ => (epoch, boot) := by
  have hreads : Reads readEpochAdvance (encodeEpochAdvance epoch boot) (epoch, boot) := by
    unfold readEpochAdvance encodeEpochAdvance
    exact (reads_u64 _).bind ((reads_boot boot).bind_pure (Reads.pure _))
  unfold decodeEpochAdvance Read.document
  rw [hreads.runAll]
  change ((require (epoch != 0) .invalidArgument "epoch advance carries a zero epoch") >>=
    fun _ => pure (epoch, boot)) = _
  cases require (epoch != 0) .invalidArgument "epoch advance carries a zero epoch" <;> rfl

/-- A fence within the bound is decoded as its boots. -/
theorem decodeFence_encode {boots : List BootId} (h : boots.length ≤ kMaxFencedBoots) :
    decodeFence (encodeFence boots) = .ok boots := by
  have hreads : Reads (readFence "encoded fence list exceeds the bound") (encodeFence boots)
      boots := (reads_count h (by decide)).bind (Reads.many boots fun boot _ => reads_u64 boot)
  exact hreads.runAll _

/-- A longer fence is refused. -/
theorem decodeFence_refused {boots : List BootId} (h : kMaxFencedBoots < boots.length)
    (hlen : boots.length < 2 ^ 32) :
    decodeFence (encodeFence boots) = fail .limitExceeded "encoded fence list exceeds the bound" := by
  have hsize := toNat_size hlen
  unfold decodeFence Read.document readFence encodeFence Read.count
  simp only [bind_assoc]
  rw [show Write.size boots.length = Write.u32 (UInt32.ofNat boots.length) from rfl,
    (reads_u32 _).runAll_bind, hsize, Read.refuse, if_pos h]
  rfl

end Fcfn
