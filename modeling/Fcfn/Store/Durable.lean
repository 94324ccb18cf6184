import Fcfn.Core.Ids

/-!
# The durable store

The store at the level of records: the snapshot that the CURRENT pointer names, the records of the
active log segment, and the number of bytes of a partial record at the log's end. Records carry the
sequence they were committed under. What the file system makes of a write is an input: an append
that fails is taken to leave nothing behind, and a process that stops in the middle of one leaves a
partial record, which the next open cuts off. -/

namespace Fcfn

open Words (Bytes)

/-- Durable record kinds. -/
inductive RecordType
  | topologyDefinition | policyDefinition | detectionRecord | evidenceReconfirmed | planDecision
  | boundaryDecision | transitionDecision | applyAttempt | applyAcknowledgement
  | effectVerification | authorizationIssued | fence | epochAdvance | snapshotPayload
  | startupMarker | shutdownMarker
  deriving DecidableEq, Repr

/-- The bytes of a record before its payload. -/
def kRecordHeaderBytes : ℕ := 28

/-- The longest log segment that is read. -/
def kMaxWalFileBytes : ℕ := 512 * 1024 * 1024

/-- A framed record. -/
structure Frame where
  type : RecordType
  sequence : Sequence
  payload : Bytes
  deriving DecidableEq, Repr

/-- The bytes a record takes. -/
def Frame.size (frame : Frame) : ℕ := kRecordHeaderBytes + frame.payload.length

/-- What the files of a store hold. -/
structure Disk where
  /-- The sequence and the payload of the current snapshot. -/
  snapshot : Option (Sequence × Bytes) := none
  log : List Frame := []
  /-- The bytes of a partial record at the end of the log. -/
  torn_bytes : ℕ := 0
  deriving DecidableEq, Repr

/-- What the file system makes of a snapshot. -/
inductive SnapshotOutcome
  | published
  /-- A write failed before the CURRENT pointer was replaced. -/
  | unpublished
  /-- The pointer was replaced but old files could not be listed. -/
  | uncleaned
  deriving DecidableEq, Repr

/-- An open store. -/
structure DurableStore where
  disk : Disk
  last_sequence : Sequence
  deriving DecidableEq, Repr

namespace DurableStore

/-- Append, flush and publish one record. The next sequence is assigned here; `append_fails` says
which appends fail. -/
def commit (store : DurableStore) (append_fails : Sequence → Bool) (type : RecordType)
    (payload : Bytes) : Result Unit × DurableStore :=
  if payload.length > kMaxRecordPayloadBytes then
    (fail .limitExceeded "record payload exceeds the bound", store)
  else
    let next := store.last_sequence + 1
    if next ≤ store.last_sequence then (fail .exhausted "record sequence exhausted", store)
    else
      if append_fails next then (fail .ioError "cannot open file for append", store)
      else
        (.ok (), ⟨{ store.disk with log := store.disk.log ++ [⟨type, next, payload⟩] }, next⟩)

/-- Write a snapshot and start a new log segment. -/
def writeSnapshot (store : DurableStore) (outcome : SnapshotOutcome) (payload : Bytes) :
    Result Unit × DurableStore :=
  if payload.length > kMaxSnapshotPayloadBytes then
    (fail .limitExceeded "snapshot payload exceeds the bound", store)
  else
    let rotated := { store with disk := ⟨some (store.last_sequence, payload), [], 0⟩ }
    match outcome with
    | .published => (.ok (), rotated)
    | .unpublished => (fail .ioError "atomic replace failed", store)
    | .uncleaned => (fail .ioError "cannot enumerate the store root", rotated)

/-- What the scan of the log has found so far. -/
structure Scan where
  previous : Option Sequence := none
  last_sequence : Sequence
  replayed : List Frame := []
  deriving DecidableEq, Repr

/-- Take one record of the log: it is replayed unless the snapshot already represents it. -/
def scanFrame (scan : Scan) (frame : Frame) : Result Scan := do
  require (scan.previous.all fun previous => previous < frame.sequence) .sequenceRegression
    "log sequence did not advance"
  if frame.sequence > scan.last_sequence then
    return ⟨some frame.sequence, frame.sequence, scan.replayed ++ [frame]⟩
  else
    return { scan with previous := some frame.sequence }

/-- The sequence and the payload of the snapshot, which must fit in a record to be read back. -/
def readSnapshot (disk : Disk) : Result (Sequence × Bytes) :=
  match disk.snapshot with
  | none => .ok (0, [])
  | some (sequence, payload) => do
    require (kRecordHeaderBytes + payload.length ≤ kMaxSnapshotPayloadBytes) .limitExceeded
      "snapshot payload length exceeds the bound"
    require (payload.length ≤ kMaxRecordPayloadBytes) .corrupt
      "snapshot payload is not a valid snapshot record"
    return (sequence, payload)

/-- What opening a store recovers. -/
structure Recovery where
  store : DurableStore
  snapshot_payload : Bytes
  replayed : List Frame
  deriving DecidableEq, Repr

/-- Open a store: read the snapshot, scan the log and cut off a partial record at its end. -/
def openStore (disk : Disk) (allow_torn_tail_recovery : Bool) : Result Recovery := do
  let (sequence, snapshot_payload) ← readSnapshot disk
  require ((disk.log.map Frame.size).sum + disk.torn_bytes ≤ kMaxWalFileBytes) .limitExceeded
    "durable file exceeds the configured bound"
  let scan ← disk.log.foldlM scanFrame { last_sequence := sequence }
  require (disk.torn_bytes == 0 || allow_torn_tail_recovery) .corrupt
    "log ends with a partial record and recovery is disabled"
  return ⟨⟨{ disk with torn_bytes := 0 }, scan.last_sequence⟩, snapshot_payload, scan.replayed⟩

end DurableStore

/-! ## What a store keeps -/

namespace DurableStore

/-- The store after one more record. -/
def appended (store : DurableStore) (type : RecordType) (payload : Bytes) : DurableStore :=
  ⟨{ store.disk with log := store.disk.log ++ [⟨type, store.last_sequence + 1, payload⟩] },
    store.last_sequence + 1⟩

/-- A commit appends its record under the next sequence, or fails and changes nothing. -/
theorem commit_spec (store : DurableStore) (append_fails : Sequence → Bool) (type : RecordType)
    (payload : Bytes) :
    (store.commit append_fails type payload = (.ok (), store.appended type payload) ∧
        payload.length ≤ kMaxRecordPayloadBytes ∧
        store.last_sequence < store.last_sequence + 1 ∧
        append_fails (store.last_sequence + 1) = false) ∨
      (∃ status, store.commit append_fails type payload = (.error status, store)) ∧
        ¬ (payload.length ≤ kMaxRecordPayloadBytes ∧
          store.last_sequence < store.last_sequence + 1 ∧
          append_fails (store.last_sequence + 1) = false) := by
  unfold commit
  split
  · rename_i hlen
    exact Or.inr ⟨⟨_, rfl⟩, fun h => absurd h.1 (by omega)⟩
  · rename_i hlen
    simp only
    split
    · rename_i hnext
      exact Or.inr ⟨⟨_, rfl⟩, fun h => absurd h.2.1 (UInt64.not_lt.mpr hnext)⟩
    · rename_i hnext
      split
      · rename_i hfails
        exact Or.inr ⟨⟨_, rfl⟩, fun h => absurd h.2.2 (by simp [hfails])⟩
      · rename_i hfails
        exact Or.inl ⟨rfl, by omega, UInt64.not_le.mp hnext, by simpa using hfails⟩

/-- A store, if there is one, after records with a property were appended to it. -/
inductive Grown (P : RecordType → Bytes → Prop) :
    Option DurableStore → Option DurableStore → Prop
  | refl (store : Option DurableStore) : Grown P store store
  | append {before : Option DurableStore} {store : DurableStore} {type : RecordType}
      {payload : Bytes} (grown : Grown P before (some store)) (record : P type payload)
      (fits : payload.length ≤ kMaxRecordPayloadBytes)
      (advances : store.last_sequence < store.last_sequence + 1) :
    Grown P before (some (store.appended type payload))

section Grown

variable {P Q : RecordType → Bytes → Prop} {before after later : Option DurableStore}

/-- Records appended after others. -/
theorem Grown.trans (h : Grown P before after) (h' : Grown P after later) :
    Grown P before later := by
  induction h' with
  | refl => exact h
  | append _ record fits advances ih => exact ih.append record fits advances

/-- Records with a weaker property. -/
theorem Grown.mono (h : Grown P before after) (hpq : ∀ type payload, P type payload →
    payload.length ≤ kMaxRecordPayloadBytes → Q type payload) : Grown Q before after := by
  induction h with
  | refl => exact .refl _
  | append _ record fits advances ih => exact ih.append (hpq _ _ record fits) fits advances

/-- A store stays a store. -/
theorem Grown.isSome (h : Grown P before after) : after.isSome = before.isSome := by
  induction h with
  | refl => rfl
  | append _ _ _ _ ih => simpa using ih

/-- Appending keeps the snapshot, and adds records with the property to the log. -/
theorem Grown.disk {store store' : DurableStore} (h : Grown P (some store) (some store')) :
    store'.disk.snapshot = store.disk.snapshot ∧ store'.disk.torn_bytes = store.disk.torn_bytes ∧
      ∃ added, store'.disk.log = store.disk.log ++ added ∧
        ∀ frame ∈ added, P frame.type frame.payload := by
  generalize hb : some store' = after at h
  induction h generalizing store' with
  | refl =>
    obtain rfl := Option.some.inj hb
    exact ⟨rfl, rfl, [], by simp, by simp⟩
  | @append last type payload _ record _ _ ih =>
    obtain rfl := Option.some.inj hb
    obtain ⟨hsnapshot, htorn, added, hlog, hadded⟩ := ih rfl
    refine ⟨hsnapshot, htorn, added ++ [⟨type, last.last_sequence + 1, payload⟩], ?_, ?_⟩
    · rw [appended, hlog, List.append_assoc]
    · intro frame hf
      rcases List.mem_append.mp hf with hf | hf
      · exact hadded frame hf
      · obtain rfl := List.mem_singleton.mp hf
        exact record

end Grown

/-- A snapshot replaces the disk or leaves it alone. -/
theorem writeSnapshot_disk (store : DurableStore) (outcome : SnapshotOutcome) (payload : Bytes) :
    (store.writeSnapshot outcome payload).2.disk = store.disk ∨
      (store.writeSnapshot outcome payload).2.disk =
        ⟨some (store.last_sequence, payload), [], 0⟩ := by
  unfold writeSnapshot
  split
  · exact Or.inl rfl
  · cases outcome with
    | published => exact Or.inr rfl
    | unpublished => exact Or.inl rfl
    | uncleaned => exact Or.inr rfl

/-- What the scan replays is in the log. -/
theorem scanFrame_replayed {log : List Frame} {scan scan' : Scan}
    (h : log.foldlM scanFrame scan = .ok scan') :
    ∀ frame ∈ scan'.replayed, frame ∈ scan.replayed ∨ frame ∈ log := by
  induction log generalizing scan with
  | nil =>
    rw [List.foldlM_nil, pure_eq_ok] at h
    exact fun frame hf => Or.inl (h ▸ hf)
  | cons frame log ih =>
    rw [List.foldlM_cons, bind_eq_ok] at h
    obtain ⟨scan₁, hstep, hrest⟩ := h
    have hreplayed : ∀ f ∈ scan₁.replayed, f ∈ scan.replayed ∨ f = frame := by
      rw [scanFrame, require_bind_eq_ok] at hstep
      obtain ⟨-, hstep⟩ := hstep
      split at hstep
      · rw [pure_eq_ok] at hstep
        subst hstep
        simp
      · rw [pure_eq_ok] at hstep
        subst hstep
        exact fun f hf => Or.inl hf
    intro f hf
    rcases ih hrest f hf with h1 | h1
    · rcases hreplayed f h1 with h2 | rfl
      · exact Or.inl h2
      · exact Or.inr (by simp)
    · exact Or.inr (List.mem_cons_of_mem _ h1)

/-- What is recovered comes from the disk, which keeps its snapshot and its log. -/
structure RecoveredFrom (disk : Disk) (recovery : Recovery) : Prop where
  snapshot : recovery.store.disk.snapshot = disk.snapshot
  log : recovery.store.disk.log = disk.log
  payload : (disk.snapshot = none ∧ recovery.snapshot_payload = []) ∨
    ∃ sequence, disk.snapshot = some (sequence, recovery.snapshot_payload)
  fits : recovery.snapshot_payload.length ≤ kMaxRecordPayloadBytes
  replayed : ∀ frame ∈ recovery.replayed, frame ∈ disk.log

/-- Opening a store recovers what is on its disk. -/
theorem openStore_spec {disk : Disk} {allow : Bool} {recovery : Recovery}
    (h : openStore disk allow = .ok recovery) : RecoveredFrom disk recovery := by
  rw [openStore, bind_eq_ok] at h
  obtain ⟨⟨sequence, payload⟩, hsnap, h⟩ := h
  simp only [require_bind_eq_ok] at h
  obtain ⟨-, h⟩ := h
  rw [bind_eq_ok] at h
  obtain ⟨scan, hscan, h⟩ := h
  rw [require_bind_eq_ok, pure_eq_ok] at h
  obtain ⟨-, rfl⟩ := h
  have hread : ((disk.snapshot = none ∧ payload = []) ∨
      ∃ sequence, disk.snapshot = some (sequence, payload)) ∧
        payload.length ≤ kMaxRecordPayloadBytes := by
    rw [readSnapshot] at hsnap
    split at hsnap
    · rename_i hnone
      obtain ⟨-, rfl⟩ := Prod.mk.inj (Except.ok.inj hsnap)
      exact ⟨Or.inl ⟨hnone, rfl⟩, by simp⟩
    · rename_i sequence' payload' hsome
      simp only [require_bind_eq_ok, pure_eq_ok, decide_eq_true_eq] at hsnap
      obtain ⟨-, hfits, hsnap⟩ := hsnap
      obtain ⟨rfl, rfl⟩ := Prod.mk.inj hsnap
      exact ⟨Or.inr ⟨_, hsome⟩, hfits⟩
  refine ⟨rfl, rfl, hread.1, hread.2, fun frame hf => ?_⟩
  rcases scanFrame_replayed hscan frame hf with h | h
  · exact absurd h (by simp)
  · exact h

end DurableStore

end Fcfn
