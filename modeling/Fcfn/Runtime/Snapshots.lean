import Fcfn.Runtime.Recovery

/-!
# What a snapshot is decoded to

A snapshot is read back through three bounds that its writer does not check: that of a record, those
of the tables, and those of what the tables hold. `decodeDurableState_encode` says that a payload within
the three is decoded to the state that was written. -/

namespace Fcfn

open Words Codec RuntimeState DurableStore

/-! ## The entries of the tables -/

/-- An attempt whose explanation names canonical resources is decoded from its payload. -/
theorem decodeAttempt_encode {attempt : ApplyAttempt} (h : attempt.explanation.Canonical) :
    decodeAttempt (encodeAttempt attempt) = .ok attempt := by
  have hreads : Reads readAttempt (encodeAttempt attempt) attempt := by
    have hstate : ¬ attempt.state.toByte > kMaxEffectState := by
      cases attempt.state <;> decide
    simp only [encodeAttempt, List.append_assoc]
    refine (reads_u64 _).bind ((reads_u64 _).bind ((reads_digest _).bind ((reads_digest _).bind
      ((reads_u64 _).bind ((reads_u64 _).bind ((reads_boot _).bind ((reads_u8 _).bind
        ((reads_u64 _).bind ((reads_u64 _).bind ((reads_boot _).bind ((reads_u64 _).bind
          ((reads_digest _).bind ((reads_u64 _).bind ((reads_u64 _).bind ((reads_u64 _).bind
            (Reads.skip (reads_refuse hstate)
              ((Explanation.reads_explanation h).bind_pure ?_)))))))))))))))))
    rw [EffectState.ofByte_toByte]
    exact Reads.pure _
  unfold decodeAttempt Read.document
  exact hreads.runAll _

/-- So is a transition decision. -/
theorem decodeTransition_encode {decision : TransitionDecision}
    (h : decision.explanation.Canonical) :
    decodeTransition (encodeTransition decision) = .ok decision := by
  have hkind : TransitionKind.ofByte decision.kind.toByte = decision.kind := by
    cases decision.kind <;> rfl
  have hstatus : TransitionStatus.ofByte decision.status.toByte = decision.status := by
    cases decision.status <;> rfl
  have hrange : ¬ (decision.kind.toByte > kMaxTransitionKind ∨
      decision.status.toByte > kMaxTransitionStatus ∨
      decision.required_effect_state.toByte > kMaxEffectState ∨
      decision.observed_effect_state.toByte > kMaxEffectState) := by
    rintro (hk | hs | hr | ho)
    · cases hc : decision.kind <;> rw [hc] at hk <;> exact absurd hk (by decide)
    · cases hc : decision.status <;> rw [hc] at hs <;> exact absurd hs (by decide)
    · cases hc : decision.required_effect_state <;> rw [hc] at hr <;> exact absurd hr (by decide)
    · cases hc : decision.observed_effect_state <;> rw [hc] at ho <;> exact absurd ho (by decide)
  have hcode : ¬ decision.code.toWord > StatusCode.internal.toWord :=
    UInt16.not_lt.mpr (StatusCode.ofWord_toWord _).2
  have hreads : Reads readTransition (encodeTransition decision) decision := by
    simp only [encodeTransition, List.append_assoc]
    refine (reads_u64 _).bind ((reads_u8 _).bind ((reads_u8 _).bind ((reads_u16 _).bind
      ((reads_u64 _).bind ((reads_u64 _).bind ((reads_boolean _).bind ((reads_digest _).bind
        ((reads_digest _).bind ((reads_digest _).bind ((reads_u8 _).bind ((reads_u8 _).bind
          ((reads_boolean _).bind ((reads_u64 _).bind ((reads_boot _).bind ((reads_u64 _).bind
            (Reads.skip (reads_refuse hrange) (Reads.skip (reads_refuse hcode)
              ((Explanation.reads_explanation h).bind_pure ?_))))))))))))))))))
    rw [hkind, hstatus, EffectState.ofByte_toByte, EffectState.ofByte_toByte,
      (StatusCode.ofWord_toWord _).1]
    exact Reads.pure _
  unfold decodeTransition Read.document
  exact hreads.runAll _

/-- A detection of a canonical resource is decoded from its payload. -/
theorem decodeDetection_encode {record : DetectionRecord}
    (h : isValidResourceId record.resource = true) :
    decodeDetection (encodeDetection record) = .ok record := by
  have hstate : record.state.toByte ≤ EvidenceState.unknown.toByte ∧
      EvidenceState.ofByte record.state.toByte = record.state := by
    cases record.state <;> decide
  have hreads : Reads readDetection (encodeDetection record) (record.state.toByte, record) := by
    have hboot := reads_boot record.boot
    simp only [encodeDetection, DetectionRecord.encodeContent, List.append_assoc]
    simp only [encodeBoot] at hboot
    rw [← List.append_assoc (Write.u64 record.boot.id)]
    refine (reads_resourceId h).bind ((reads_u8 _).bind ((reads_u64 _).bind ((reads_digest _).bind
      ((reads_u64 _).bind (hboot.bind ((reads_u64 _).bind ((reads_digest _).bind_pure ?_)))))))
    rw [hstate.2]
    exact Reads.pure _
  unfold decodeDetection Read.document
  rw [hreads.runAll]
  refine bind_eq_ok.mpr ⟨_, rfl, ?_⟩
  exact require_bind_eq_ok.mpr ⟨decide_eq_true hstate.1, rfl⟩

/-- Detections are decoded with canonical resources. -/
theorem decodeDetection_returns {bytes : Bytes} {record : DetectionRecord}
    (h : decodeDetection bytes = .ok record) : isValidResourceId record.resource = true := by
  have hreturns : Returns readDetection fun r => isValidResourceId r.2.resource = true :=
    returns_resourceId.bind fun _ hid => Returns.after fun _ => Returns.after fun _ =>
      Returns.after fun _ => Returns.after fun _ => Returns.after fun _ => Returns.after fun _ =>
      Returns.after fun _ => Returns.pure hid
  rw [decodeDetection, bind_eq_ok] at h
  obtain ⟨⟨state, record'⟩, hread, h⟩ := h
  simp only [require_bind_eq_ok, pure_eq_ok] at h
  obtain ⟨-, rfl⟩ := h
  exact hreturns.runAll hread

/-- Attempts are decoded with canonical explanations. -/
theorem decodeAttempt_returns {bytes : Bytes} {attempt : ApplyAttempt}
    (h : decodeAttempt bytes = .ok attempt) : attempt.explanation.Canonical := by
  have hreturns : Returns readAttempt fun attempt => attempt.explanation.Canonical := by
    unfold readAttempt
    iterate 16 refine Returns.after fun _ => ?_
    exact Returns.after fun _ => Explanation.returns_explanation.bind fun _ hx => Returns.pure hx
  unfold decodeAttempt Read.document at h
  exact hreturns.runAll h

/-- So are transition decisions. -/
theorem decodeTransition_returns {bytes : Bytes} {decision : TransitionDecision}
    (h : decodeTransition bytes = .ok decision) : decision.explanation.Canonical := by
  have hreturns : Returns readTransition fun decision => decision.explanation.Canonical := by
    unfold readTransition
    iterate 17 refine Returns.after fun _ => ?_
    exact Returns.after fun _ => Explanation.returns_explanation.bind fun _ hx => Returns.pure hx
  unfold decodeTransition Read.document at h
  exact hreturns.runAll h

/-! ## The tables -/

section Table

variable {α : Type} {encode : α → Bytes} {decode : Bytes → Result α} {bound : ℕ} {message : String}

/-- An entry takes no more bytes than its table. -/
theorem length_le_encodeTable {records : List α} {record : α} (h : record ∈ records) :
    (encode record).length ≤ (encodeTable encode records).length := by
  obtain ⟨before, after, rfl⟩ := List.append_of_mem h
  simp only [encodeTable, List.flatMap_append, List.flatMap_cons, List.length_append, Write.blob]
  omega

/-- A table within its bound is read back when its entries are. -/
theorem reads_table {records : List α} (hbound : records.length ≤ bound) (hb : bound < 2 ^ 32)
    (h : ∀ record ∈ records, (encode record).length ≤ kMaxRecordPayloadBytes ∧
      decode (encode record) = .ok record) :
    Reads (readTable decode bound message) (encodeTable encode records) records := by
  refine (reads_count hbound hb).bind (Reads.many records fun record hmem => ?_)
  obtain ⟨hlen, hdecode⟩ := h record hmem
  exact (reads_blob hlen (by decide)).bind_pure (reads_liftM hdecode)

/-- What is read of a table is within its bound, and each entry was decoded. -/
theorem returns_table {P : α → Prop} (h : ∀ bytes record, decode bytes = .ok record → P record) :
    Returns (readTable decode bound message) fun records =>
      records.length ≤ bound ∧ ∀ record ∈ records, P record := by
  refine returns_count.bind fun n hn => ?_
  refine (Returns.many (P := P) ?_ n).mono fun records hr => ⟨hr.1 ▸ hn, hr.2⟩
  exact Returns.after fun bytes => returns_liftM.mono fun record hrecord => h bytes record hrecord

end Table

/-- A list of boots within its bound is read back. -/
theorem reads_fence {boots : List BootId} {message : String} (h : boots.length ≤ kMaxFencedBoots) :
    Reads (readFence message) (encodeFence boots) boots :=
  (reads_count h (by decide)).bind (Reads.many boots fun boot _ => reads_u64 boot)

/-- A list of boots is read within its bound. -/
theorem returns_fence {message : String} :
    Returns (readFence message) fun boots => boots.length ≤ kMaxFencedBoots :=
  returns_count.bind fun n hn =>
    (Returns.many (Returns.trivial Read.u64) n).mono fun _ hboots => hboots.1 ▸ hn

/-- What the decoder of durable states makes sure of. -/
structure DurableState.Readable (state : DurableState) : Prop where
  plans : state.plans.length ≤ kMaxRetainedPlans ∧ ∀ plan ∈ state.plans, plan.Decodable
  attempts : state.attempts.length ≤ kMaxRetainedAttempts ∧
    ∀ attempt ∈ state.attempts, attempt.explanation.Canonical
  transitions : state.transitions.length ≤ kMaxRetainedTransitions ∧
    ∀ decision ∈ state.transitions, decision.explanation.Canonical
  detections : state.detections.length ≤ kMaxRetainedDetections ∧
    ∀ record ∈ state.detections, isValidResourceId record.resource = true
  fenced_boots : state.fenced_boots.length ≤ kMaxFencedBoots

/-- Whatever is decoded is readable. -/
theorem DurableState.readable_of_decode {bytes : Bytes} {state : DurableState}
    (h : decodeDurableState bytes = .ok state) : state.Readable := by
  have htables : ∀ header : DurableState, Returns header.readTables DurableState.Readable := by
    intro header
    unfold DurableState.readTables
    iterate 8 refine Returns.after fun _ => ?_
    refine (returns_table fun _ _ => ContainmentPlan.decode_decodable).bind fun _ hplans => ?_
    refine (returns_table fun _ _ => decodeAttempt_returns).bind fun _ hattempts => ?_
    refine (returns_table fun _ _ => decodeTransition_returns).bind fun _ htransitions => ?_
    refine (returns_table fun _ _ => decodeDetection_returns).bind fun _ hdetections => ?_
    refine returns_fence.bind fun _ hfenced => Returns.after fun _ => ?_
    exact Returns.pure ⟨hplans, hattempts, htransitions, hdetections, hfenced⟩
  unfold decodeDurableState Read.document at h
  exact (Returns.after htables).runAll h

/-- The nested encodings of a state are within the bounds of their blobs. -/
structure DurableState.Fits (state : DurableState) : Prop where
  topology_bytes : state.topology_bytes.length ≤ kMaxSnapshotPayloadBytes
  policy_bytes : state.policy_bytes.length ≤ kMaxSnapshotPayloadBytes
  evidence_bytes : state.evidence_bytes.length ≤ kMaxSnapshotPayloadBytes
  boundary_bytes : state.boundary_bytes.length ≤ kMaxSnapshotPayloadBytes
  plans : ∀ plan ∈ state.plans, plan.encode.length ≤ kMaxRecordPayloadBytes
  attempts : ∀ attempt ∈ state.attempts, (encodeAttempt attempt).length ≤ kMaxRecordPayloadBytes
  transitions : ∀ decision ∈ state.transitions,
    (encodeTransition decision).length ≤ kMaxRecordPayloadBytes
  detections : ∀ record ∈ state.detections,
    (encodeDetection record).length ≤ kMaxRecordPayloadBytes

/-- A readable state whose nested encodings fit is decoded from its payload. -/
theorem DurableState.Fits.decode_encode {state : DurableState} (hfits : state.Fits)
    (h : state.Readable) : decodeDurableState (encodeDurableState state) = .ok state := by
  have heffect : ¬ state.effect_state.toByte > kMaxEffectState := by
    cases state.effect_state <;> decide
  have hreads : Reads (DurableState.readHeader >>= DurableState.readTables)
      (encodeDurableState state) state := by
    rw [encodeDurableState]
    refine (reads_header state).bind ?_
    simp only [List.append_assoc]
    refine (reads_blob hfits.topology_bytes (by decide)).bind
      ((reads_blob hfits.policy_bytes (by decide)).bind
        ((reads_blob hfits.evidence_bytes (by decide)).bind
          ((reads_blob hfits.boundary_bytes (by decide)).bind
            ((reads_u64 _).bind ((reads_digest _).bind ((reads_u8 _).bind
              (Reads.skip (reads_refuse heffect) ?_)))))))
    refine (reads_table h.plans.1 (by decide) fun plan hmem => ⟨hfits.plans plan hmem,
        ContainmentPlan.decode_encode (h.plans.2 plan hmem) (hfits.plans plan hmem)⟩).bind
      ((reads_table h.attempts.1 (by decide) fun attempt hmem => ⟨hfits.attempts attempt hmem,
          decodeAttempt_encode (h.attempts.2 attempt hmem)⟩).bind
        ((reads_table h.transitions.1 (by decide) fun decision hmem =>
            ⟨hfits.transitions decision hmem,
              decodeTransition_encode (h.transitions.2 decision hmem)⟩).bind
          ((reads_table h.detections.1 (by decide) fun record hmem =>
              ⟨hfits.detections record hmem,
                decodeDetection_encode (h.detections.2 record hmem)⟩).bind
            ((reads_fence h.fenced_boots).bind ((reads_u32 _).bind_pure ?_)))))
    rw [EffectState.ofByte_toByte]
    exact Reads.pure _
  unfold decodeDurableState Read.document
  exact hreads.runAll _

/-- A readable state whose payload fits a record is decoded from it. -/
theorem decodeDurableState_encode {state : DurableState}
    (hfits : (encodeDurableState state).length ≤ kMaxRecordPayloadBytes) (h : state.Readable) :
    decodeDurableState (encodeDurableState state) = .ok state := by
  have hentry : ∀ {α : Type} {encode : α → Bytes} {records : List α},
      (encodeTable encode records).length ≤ kMaxRecordPayloadBytes →
      ∀ record ∈ records, (encode record).length ≤ kMaxRecordPayloadBytes :=
    fun htable _ hmem => (length_le_encodeTable hmem).trans htable
  have hbounds : kMaxRecordPayloadBytes ≤ kMaxSnapshotPayloadBytes := by decide
  -- every part is shorter than the payload
  simp only [encodeDurableState, List.length_append, Write.blob] at hfits
  have hparts : state.Fits :=
    ⟨by omega, by omega, by omega, by omega, hentry (by omega), hentry (by omega),
      hentry (by omega), hentry (by omega)⟩
  exact hparts.decode_encode h

end Fcfn
