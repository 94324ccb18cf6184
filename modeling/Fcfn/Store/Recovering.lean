import Fcfn.Store.Scan
import Fcfn.Store.Reading

/-!
# What opening reads

Opening a store reads three files: the pointer, the snapshot that it names and the log segment.
`readFiles` is that reading alone, and an open that succeeds has found what it says
(`open_reads`). -/

namespace Fcfn

open Words Files Program DurableStore

namespace FileStore

/-- What opening reads: the pointer, the payload of the snapshot, the scan of the log, and what is
left after its last record. -/
structure FileReading where
  pointer : CurrentPointer
  snapshot_payload : Bytes
  scan : Scan
  remaining : Bytes

/-- Read the log segment, which is empty when it is not there. -/
def readLog (path : Bytes) (dir : StoreDir) : Result Bytes :=
  if (dir.read path).isSome then readFile path kMaxWalFileBytes dir else .ok []

/-- Read the files of a store. -/
def readFiles (allow_torn_tail_recovery : Bool) (dir : StoreDir) : Result FileReading := do
  let pointer ← readFile currentPath 4096 dir >>= decodeCurrent
  let (sequence, snapshot_payload) ← loadSnapshot pointer dir
  let raw ← readLog (walPathFor pointer.wal) dir
  let (remaining, scan) ← scanLog (raw.length + 1) raw { last_sequence := sequence }
  require (remaining == [] || allow_torn_tail_recovery) .corrupt
    "log ends with a partial record and recovery is disabled"
  return ⟨pointer, snapshot_payload, scan, remaining⟩

/-- What an open returns of what it has read. -/
def FileReading.opened (reading : FileReading) (options : StoreOptions) : FileStore × FileRecovery :=
  ({ options := options
     last_sequence := reading.scan.last_sequence
     wal_segment := reading.pointer.wal
     snapshot_sequence := reading.pointer.snapshot },
    ⟨false, reading.remaining.length, reading.snapshot_payload, reading.scan.replayed⟩)

/-- Only its file is read of a snapshot. -/
theorem loadSnapshot_congr {dir dir' : StoreDir} {pointer : CurrentPointer}
    (hsame : dir'.read (snapshotPathFor pointer.snapshot) =
      dir.read (snapshotPathFor pointer.snapshot)) :
    loadSnapshot pointer dir' = loadSnapshot pointer dir := by
  have hfile : ∀ max_bytes, readFile (snapshotPathFor pointer.snapshot) max_bytes dir' =
      readFile (snapshotPathFor pointer.snapshot) max_bytes dir := by
    intro max_bytes
    unfold readFile
    rw [hsame]
  unfold loadSnapshot
  simp only [hsame, hfile]

/-- Only the active files are read. -/
theorem readFiles_congr {dir dir' : StoreDir} (allow : Bool)
    (hsame : ∀ pointer, ∀ name ∈ activePaths pointer, dir'.read name = dir.read name) :
    readFiles allow dir' = readFiles allow dir := by
  have hfile : ∀ pointer, ∀ name ∈ activePaths pointer, ∀ max_bytes,
      readFile name max_bytes dir' = readFile name max_bytes dir := by
    intro pointer name hname max_bytes
    unfold readFile
    rw [hsame pointer name hname]
  have hsnapshot : ∀ pointer, loadSnapshot pointer dir' = loadSnapshot pointer dir := fun pointer =>
    loadSnapshot_congr (hsame pointer _ (by simp [activePaths]))
  have hlog : ∀ pointer : CurrentPointer, readLog (walPathFor pointer.wal) dir' =
      readLog (walPathFor pointer.wal) dir := by
    intro pointer
    unfold readLog
    rw [hsame pointer (walPathFor pointer.wal) (by simp [activePaths]),
      hfile pointer (walPathFor pointer.wal) (by simp [activePaths])]
  unfold readFiles
  simp only [hfile ⟨0, 1⟩ currentPath (by simp [activePaths]), hsnapshot, hlog]

/-- What reading the files has gone through. -/
theorem readFiles_of_ok {allow : Bool} {dir : StoreDir} {reading : FileReading}
    (h : readFiles allow dir = .ok reading) :
    ∃ sequence raw, (readFile currentPath 4096 dir >>= decodeCurrent) = .ok reading.pointer ∧
      loadSnapshot reading.pointer dir = .ok (sequence, reading.snapshot_payload) ∧
        readLog (walPathFor reading.pointer.wal) dir = .ok raw ∧
          scanLog (raw.length + 1) raw { last_sequence := sequence } =
            .ok (reading.remaining, reading.scan) ∧ (reading.remaining = [] ∨ allow) := by
  unfold readFiles at h
  rw [bind_eq_ok] at h
  obtain ⟨pointer, hpointer, h⟩ := h
  rw [bind_eq_ok] at h
  obtain ⟨⟨sequence, payload⟩, hsnapshot, h⟩ := h
  simp only at h
  rw [bind_eq_ok] at h
  obtain ⟨raw, hraw, h⟩ := h
  rw [bind_eq_ok] at h
  obtain ⟨⟨remaining, scan⟩, hscan, h⟩ := h
  simp only [require_bind_eq_ok, pure_eq_ok] at h
  obtain ⟨hallow, rfl⟩ := h
  exact ⟨sequence, raw, hpointer, hsnapshot, hraw, hscan, by simpa using hallow⟩

/-- A log segment that is there is read within its bound. -/
theorem readLog_of_ok {path raw raw' : Bytes} {dir : StoreDir} (hread : dir.read path = some raw)
    (h : readLog path dir = .ok raw') : raw' = raw ∧ raw.length ≤ kMaxWalFileBytes := by
  unfold readLog readFile at h
  rw [hread, Option.isSome_some, if_pos rfl] at h
  simp only at h
  split at h
  · exact absurd h (by simp [fail])
  · rename_i hfits
    exact ⟨(Except.ok.inj h).symm, not_lt.mp hfits⟩

/-- A replay that succeeds has read the log segment. -/
theorem replayLog_of_ok {env : FileEnv} {options : StoreOptions} {path : Bytes} {sequence : Sequence}
    {dir : StoreDir} {replayed : Scan × ℕ} {steps : List FileStep}
    (h : replayLog env options path sequence dir = (.ok replayed, steps)) :
    ∃ raw remaining, readLog path dir = .ok raw ∧
      scanLog (raw.length + 1) raw { last_sequence := sequence } = .ok (remaining, replayed.1) ∧
        (remaining = [] ∨ options.allow_torn_tail_recovery) ∧ replayed.2 = remaining.length := by
  unfold replayLog fileExists at h
  rw [look_pure_bind] at h
  split at h
  · rename_i hexists
    obtain ⟨raw, _, _, hread, hscanned, -⟩ := of_bind_ok h
    obtain ⟨scanned, _, _, hscan, hrest, -⟩ := of_bind_ok hscanned
    obtain ⟨remaining, scan⟩ := scanned
    have hread : readFile path kMaxWalFileBytes dir = .ok raw := (Prod.mk.inj hread).1
    have hscan : scanLog (raw.length + 1) raw { last_sequence := sequence } =
      .ok (remaining, scan) := (Prod.mk.inj hscan).1
    rw [readLog, if_pos hexists]
    refine ⟨raw, remaining, hread, ?_⟩
    simp only at hrest
    split at hrest
    · rename_i hempty
      obtain rfl := Except.ok.inj (Prod.mk.inj hrest).1
      exact ⟨hscan, Or.inl hempty, by rw [hempty, List.length_nil]⟩
    · obtain ⟨_, _, _, hallow, hwrite, -⟩ := of_bind_ok hrest
      obtain ⟨_, _, _, -, hreturn, -⟩ := of_bind_ok hwrite
      obtain rfl := Except.ok.inj (Prod.mk.inj hreturn).1
      have hallow : require options.allow_torn_tail_recovery .corrupt
          "log ends with a partial record and recovery is disabled" = .ok _ := (Prod.mk.inj hallow).1
      exact ⟨hscan, Or.inr (by simpa using hallow), rfl⟩
  · rename_i habsent
    obtain ⟨_, _, _, -, hreturn, -⟩ := of_bind_ok h
    obtain rfl := Except.ok.inj (Prod.mk.inj hreturn).1
    rw [readLog, if_neg habsent]
    exact ⟨[], [], rfl, rfl, Or.inl rfl, rfl⟩

/-- What is done under the lock succeeds with what the files say. -/
theorem openLocked_reads {env : FileEnv} {options : StoreOptions} {dir : StoreDir}
    {opened : FileStore × FileRecovery} {steps : List FileStep}
    (hcurrent : (dir.read currentPath).isSome)
    (h : openLocked env options dir = (.ok opened, steps)) :
    ∃ reading, readFiles options.allow_torn_tail_recovery dir = .ok reading ∧
      opened = reading.opened options := by
  unfold openLocked fileExists at h
  rw [look_pure_bind, if_pos hcurrent] at h
  obtain ⟨pointer, hpointer, hsnapshot⟩ := of_look_bind_ok h
  obtain ⟨loaded, hload, hlog⟩ := of_look_bind_ok hsnapshot
  obtain ⟨sequence, snapshot_payload⟩ := loaded
  obtain ⟨replayed, _, _, hreplay, hrest, -⟩ := of_bind_ok hlog
  obtain ⟨_, _, _, -, hreturn, -⟩ := of_bind_ok hrest
  obtain rfl := Except.ok.inj (Prod.mk.inj hreturn).1
  obtain ⟨raw, remaining, hraw, hscan, hrepair, htorn⟩ := replayLog_of_ok hreplay
  refine ⟨⟨pointer, snapshot_payload, replayed.1, remaining⟩, ?_, ?_⟩
  · have hallowed : (remaining == [] || options.allow_torn_tail_recovery) = true := by
      simpa using hrepair
    unfold readFiles
    rw [hpointer]
    simp only [bind, Except.bind, hload, hraw, hscan, hallowed, require, if_true]
    rfl
  · rw [FileReading.opened, ← htorn]

/-- An open that succeeds has found what the files say. -/
theorem open_reads {env : FileEnv} {options : StoreOptions} {dir : StoreDir}
    {opened : FileStore × FileRecovery} {steps : List FileStep}
    (hcurrent : (dir.read currentPath).isSome)
    (h : open_ env options dir = (.ok opened, steps)) :
    ∃ reading, readFiles options.allow_torn_tail_recovery dir = .ok reading ∧
      opened = reading.opened options := by
  obtain ⟨before, later, hacquire, hunder, -⟩ := open_of_ok h
  have hsame : ∀ pointer, ∀ name ∈ activePaths pointer,
      (run dir before).read name = dir.read name := by
    intro pointer name hname
    have hspares := spares_of_only (spares_acquireLock env pointer) dir
    rw [hacquire] at hspares
    exact read_run dir (hspares name hname)
  have hcurrent' : ((run dir before).read currentPath).isSome := by
    rw [hsame ⟨0, 1⟩ currentPath (by simp [activePaths])]
    exact hcurrent
  obtain ⟨reading, hreading, hopened⟩ := openLocked_reads hcurrent' hunder
  exact ⟨reading, (readFiles_congr _ hsame).symm.trans hreading, hopened⟩

end FileStore

end Fcfn
