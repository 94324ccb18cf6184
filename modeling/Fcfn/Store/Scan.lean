import Fcfn.Store.Durable

/-!
# Ascending logs

Commits number their records one after the other, so the sequences of a log ascend from the one the
snapshot covers. Such a log is replayed whole (`openStore_ascends`). -/

namespace Fcfn.DurableStore

open Words (Bytes)

/-- The sequence of the last record of a log, or the one the log starts from. -/
def lastSequence (base : Sequence) (log : List Frame) : Sequence :=
  (log.getLast?.map Frame.sequence).getD base

/-- The sequences of the records ascend, from the one the log starts from. -/
def Ascends : Sequence → List Frame → Prop
  | _, [] => True
  | base, frame :: log => base < frame.sequence ∧ Ascends frame.sequence log

/-- The sequence that the snapshot covers. -/
def snapshotSequence (snapshot : Option (Sequence × Bytes)) : Sequence :=
  (snapshot.map Prod.fst).getD 0

/-- The payload of the snapshot. -/
def snapshotPayload (snapshot : Option (Sequence × Bytes)) : Bytes :=
  (snapshot.map Prod.snd).getD []

@[simp] theorem lastSequence_nil (base : Sequence) : lastSequence base [] = base := rfl

@[simp] theorem lastSequence_concat (base : Sequence) (log : List Frame) (frame : Frame) :
    lastSequence base (log ++ [frame]) = frame.sequence := by
  simp [lastSequence]

theorem lastSequence_cons (base : Sequence) (frame : Frame) (log : List Frame) :
    lastSequence base (frame :: log) = lastSequence frame.sequence log := by
  unfold lastSequence
  rw [List.getLast?_cons]
  cases log.getLast? with
  | none => rfl
  | some last => rfl

/-- Records that go on where a log ends. -/
theorem Ascends.append {base : Sequence} {log more : List Frame} (h : Ascends base log)
    (hmore : Ascends (lastSequence base log) more) : Ascends base (log ++ more) := by
  induction log generalizing base with
  | nil => exact hmore
  | cons first log ih =>
    rw [lastSequence_cons] at hmore
    exact ⟨h.1, ih h.2 hmore⟩

/-- A record with a later sequence goes on with a log. -/
theorem Ascends.concat {base : Sequence} {log : List Frame} {frame : Frame} (h : Ascends base log)
    (hlater : lastSequence base log < frame.sequence) : Ascends base (log ++ [frame]) :=
  h.append ⟨hlater, trivial⟩

/-- The scan of an ascending log replays it whole. -/
theorem Ascends.scan {log : List Frame} {scan : Scan} (h : Ascends scan.last_sequence log)
    (hprevious : ∀ previous ∈ scan.previous, previous ≤ scan.last_sequence) :
    ∃ previous, log.foldlM scanFrame scan =
      .ok ⟨previous, lastSequence scan.last_sequence log, scan.replayed ++ log⟩ := by
  induction log generalizing scan with
  | nil => exact ⟨scan.previous, by simp [pure, Except.pure]⟩
  | cons frame log ih =>
    obtain ⟨hnext, hlog⟩ := h
    have hadvances : (scan.previous.all fun previous => previous < frame.sequence) = true := by
      cases hp : scan.previous with
      | none => rfl
      | some previous =>
        have hle := UInt64.le_iff_toNat_le.mp (hprevious previous hp)
        have hlt := UInt64.lt_iff_toNat_lt.mp hnext
        simp only [Option.all_some, decide_eq_true_eq, UInt64.lt_iff_toNat_lt]
        omega
    have hstep : scanFrame scan frame =
        .ok ⟨some frame.sequence, frame.sequence, scan.replayed ++ [frame]⟩ := by
      unfold scanFrame
      rw [hadvances, if_pos hnext]
      rfl
    obtain ⟨previous, hrest⟩ := @ih ⟨some frame.sequence, frame.sequence, scan.replayed ++ [frame]⟩
      hlog (by simp)
    refine ⟨previous, ?_⟩
    rw [List.foldlM_cons, hstep]
    show log.foldlM scanFrame _ = _
    rw [hrest, lastSequence_cons, List.append_assoc]
    rfl

/-- The record-level store is opened in four stages. -/
theorem openStore_eq (disk : Disk) (allow : Bool) :
    openStore disk allow =
      match readSnapshot disk with
      | .error status => .error status
      | .ok (sequence, payload) =>
        if (disk.log.map Frame.size).sum + disk.torn_bytes > kMaxWalFileBytes then
          fail .limitExceeded "durable file exceeds the configured bound"
        else
          match disk.log.foldlM scanFrame { last_sequence := sequence } with
          | .error status => .error status
          | .ok scan =>
            if disk.torn_bytes = 0 ∨ allow then
              .ok ⟨⟨{ disk with torn_bytes := 0 }, scan.last_sequence⟩, payload, scan.replayed⟩
            else fail .corrupt "log ends with a partial record and recovery is disabled" := by
  unfold openStore
  cases readSnapshot disk with
  | error status => rfl
  | ok read =>
    obtain ⟨sequence, payload⟩ := read
    simp only [bind, Except.bind, require]
    by_cases hbound : (disk.log.map Frame.size).sum + disk.torn_bytes > kMaxWalFileBytes
    · rw [if_neg (by simpa using hbound), if_pos hbound]
      rfl
    · rw [if_pos (by simpa using hbound), if_neg hbound]
      simp only
      cases disk.log.foldlM scanFrame { last_sequence := sequence } with
      | error status => rfl
      | ok scan =>
        by_cases hrepair : disk.torn_bytes = 0 ∨ allow
        · simp only
          rw [if_pos (by simpa using hrepair), if_pos hrepair]
          rfl
        · simp only
          rw [if_neg (by simpa using hrepair), if_neg hrepair]
          rfl

/-- A snapshot that fits in a record is read back. -/
theorem readSnapshot_fits {disk : Disk}
    (hsnapshot : ∀ p ∈ disk.snapshot, p.2.length ≤ kMaxRecordPayloadBytes) :
    readSnapshot disk = .ok (snapshotSequence disk.snapshot, snapshotPayload disk.snapshot) := by
  unfold readSnapshot
  cases hs : disk.snapshot with
  | none => rfl
  | some p =>
    have hrecord := hsnapshot p hs
    have hheader : kRecordHeaderBytes + kMaxRecordPayloadBytes ≤ kMaxSnapshotPayloadBytes := by
      decide
    simp only [require_bind_eq_ok, decide_eq_true_eq]
    exact ⟨by omega, hrecord, rfl⟩

/-- A store whose log ascends from a snapshot that fits in a record is opened with its whole log. -/
theorem openStore_ascends {disk : Disk} {allow : Bool}
    (hsnapshot : ∀ p ∈ disk.snapshot, p.2.length ≤ kMaxRecordPayloadBytes)
    (hfits : (disk.log.map Frame.size).sum + disk.torn_bytes ≤ kMaxWalFileBytes)
    (hlog : Ascends (snapshotSequence disk.snapshot) disk.log)
    (hrepair : disk.torn_bytes = 0 ∨ allow) :
    openStore disk allow = .ok ⟨⟨{ disk with torn_bytes := 0 },
      lastSequence (snapshotSequence disk.snapshot) disk.log⟩, snapshotPayload disk.snapshot,
        disk.log⟩ := by
  obtain ⟨previous, hscan⟩ := @Ascends.scan disk.log
    { last_sequence := snapshotSequence disk.snapshot } hlog (by simp)
  rw [openStore_eq, readSnapshot_fits hsnapshot]
  simp only
  rw [if_neg (not_lt.mpr hfits), hscan]
  simp only
  rw [if_pos hrepair]
  rfl

end Fcfn.DurableStore
