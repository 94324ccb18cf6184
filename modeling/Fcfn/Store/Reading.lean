import Fcfn.Store.Files
import Fcfn.Store.Scan

/-!
# What the files of a store say

`Holds` relates the files of a store to the record-level store of `Store/Durable.lean`: the pointer
names a snapshot file and a log segment, and these hold its snapshot, its log and part of a record.
It looks at three files only, so it outlives every step that spares them. `open_holds` says that
opening the files does what opening the record-level store does. -/

namespace Fcfn

open Words Files Program

/-! ## The relation -/

/-- The files that the pointer makes the store's own, and the pointer itself. -/
def activePaths (pointer : CurrentPointer) : List Bytes :=
  [currentPath, snapshotPathFor pointer.snapshot, walPathFor pointer.wal]

/-- The files of a store hold a snapshot, a log and part of a record. -/
structure Holds (dir : StoreDir) (pointer : CurrentPointer) (disk : Disk) (torn : Bytes) : Prop where
  current : dir.read currentPath = some (encodeCurrent pointer)
  segment : pointer.wal ≠ 0
  snapshot : (pointer.snapshot = 0 ∧ disk.snapshot = none) ∨
    ∃ sequence payload, pointer.snapshot ≠ 0 ∧ disk.snapshot = some (sequence, payload) ∧
      payload.length ≤ kMaxSnapshotPayloadBytes ∧ dir.read (snapshotPathFor pointer.snapshot) =
        some (encodeSnapshotFile (encodeRecord .snapshotPayload sequence payload))
  log : dir.read (walPathFor pointer.wal) = some (disk.log.flatMap Frame.encode ++ torn)
  frames : ∀ frame ∈ disk.log, frame.payload.length ≤ kMaxRecordPayloadBytes
  partial_record : Torn torn
  torn_bytes : disk.torn_bytes = torn.length

/-- Steps that touch none of the active files. -/
def Spares (pointer : CurrentPointer) (steps : List FileStep) : Prop :=
  ∀ name ∈ activePaths pointer, Avoids name steps

section Spares

variable {dir dir' : StoreDir} {pointer : CurrentPointer} {disk : Disk} {torn : Bytes}
  {steps steps' : List FileStep}

/-- Only the active files matter. -/
theorem Holds.congr (h : Holds dir pointer disk torn)
    (hsame : ∀ name ∈ activePaths pointer, dir'.read name = dir.read name) :
    Holds dir' pointer disk torn := by
  have hcurrent := hsame currentPath (by simp [activePaths])
  have hsnapshot := hsame (snapshotPathFor pointer.snapshot) (by simp [activePaths])
  have hwal := hsame (walPathFor pointer.wal) (by simp [activePaths])
  refine ⟨hcurrent.trans h.current, h.segment, ?_, hwal.trans h.log, h.frames, h.partial_record,
    h.torn_bytes⟩
  rw [hsnapshot]
  exact h.snapshot

/-- Steps that spare the active files change nothing of what they hold. -/
theorem Holds.spared (h : Holds dir pointer disk torn) (hspares : Spares pointer steps) :
    Holds (run dir steps) pointer disk torn :=
  h.congr fun name hname => read_run dir (hspares name hname)

theorem Spares.append (h : Spares pointer steps) (h' : Spares pointer steps') :
    Spares pointer (steps ++ steps') :=
  fun name hname => (h name hname).append (h' name hname)

/-- What a crash leaves of such steps spares the active files. -/
theorem Spares.crashed (h : Spares pointer steps) (done : ℕ) (written : Option ℕ) :
    Spares pointer (crashed done written steps) :=
  fun name hname => (h name hname).crashed done written

end Spares

/-- A step that touches none of the active files. -/
def SparesStep (pointer : CurrentPointer) (step : FileStep) : Prop :=
  ∀ name ∈ activePaths pointer, name ∉ step.touches

/-- What a program that only takes such steps does. -/
theorem spares_of_only {α : Type} {pointer : CurrentPointer} {op : FileOp α}
    (h : Only (SparesStep pointer) op) (dir : StoreDir) : Spares pointer (op dir).2 :=
  fun name hname step hstep => h dir step hstep name hname

/-! ## Programs that touch given files only -/

/-- The steps of a program touch given names only. -/
def TouchesOnly {α : Type} (names : List Bytes) (op : FileOp α) : Prop :=
  Only (fun step => ∀ name ∈ step.touches, name ∈ names) op

/-- A step that is tried touches what the step touches. -/
theorem touchesOnly_attempt {names : List Bytes} {step : FileStep} (faults : Faults Bytes UInt8)
    (h : ∀ name ∈ step.touches, name ∈ names) :
    TouchesOnly names (attempt faults step : FileOp Bool) :=
  Only.attempt faults h fun _ part hpart => by rwa [touches_cut hpart]

/-- An atomic write touches its target and the temporary file. -/
theorem touchesOnly_writeFileAtomic (env : FileEnv) (target bytes : Bytes) :
    TouchesOnly [target, temporaryFor target] (writeFileAtomic env target bytes) := by
  have hattempt : ∀ step : FileStep, (∀ name ∈ step.touches, name ∈ [target, temporaryFor target]) →
      TouchesOnly [target, temporaryFor target] (attempt env.faults step : FileOp Bool) :=
    fun step h => touchesOnly_attempt env.faults h
  unfold writeFileAtomic
  refine Only.bind (hattempt _ (by simp [Step.touches])) fun created => ?_
  split
  · refine Only.bind (hattempt _ (by simp [Step.touches])) fun renamed => ?_
    split
    · exact Only.pure ()
    · exact Only.bind (hattempt _ (by simp [Step.touches])) fun _ => Only.throw _
  · exact Only.bind (hattempt _ (by simp [Step.touches])) fun _ => Only.throw _

/-- Removing files touches these. -/
theorem touchesOnly_removeFiles (env : FileEnv) (paths : List Bytes) :
    TouchesOnly paths (removeFiles env paths) := by
  induction paths with
  | nil => exact Only.pure ()
  | cons path paths ih =>
    have hpath : TouchesOnly (path :: paths) (removeFileIfPresent env path) := by
      unfold removeFileIfPresent
      refine Only.bind (touchesOnly_attempt _ (by simp [Step.touches])) fun removed => ?_
      split
      · exact Only.pure ()
      · exact Only.throw _
    refine Only.bind hpath fun _ dir step hstep name hname => ?_
    exact List.mem_cons_of_mem _ (ih dir step hstep name hname)

/-- A program that touches other files only spares the active ones. -/
theorem TouchesOnly.spares {α : Type} {names : List Bytes} {op : FileOp α}
    {pointer : CurrentPointer} (h : TouchesOnly names op)
    (hother : ∀ name ∈ activePaths pointer, name ∉ names) : Only (SparesStep pointer) op :=
  fun dir step hstep name hname htouches => hother name hname (h dir step hstep name htouches)

/-- The lock is none of the active files. -/
theorem lock_not_active (pointer : CurrentPointer) :
    ∀ name ∈ activePaths pointer, name ∉ [lockPath, temporaryFor lockPath] := by
  intro name hname hlock
  simp only [activePaths, List.mem_cons, List.not_mem_nil, or_false] at hname hlock
  have hlength : name.length = 7 ∨ name.length = 30 ∨ name.length = 25 := by
    rcases hname with rfl | rfl | rfl <;> simp
  have hlength' : name.length = 4 ∨ name.length = 8 := by
    rcases hlock with rfl | rfl <;> simp
  omega

/-- Taking the lock touches it and its temporary file. -/
theorem touchesOnly_acquireLock (env : FileEnv) :
    TouchesOnly [lockPath, temporaryFor lockPath] (acquireLock env) := by
  have hwrite := touchesOnly_writeFileAtomic env lockPath (toDecimal env.process_id)
  have hremove : TouchesOnly [lockPath, temporaryFor lockPath] (removeFileIfPresent env lockPath) := by
    unfold removeFileIfPresent
    refine Only.bind (touchesOnly_attempt _ (by simp [Step.touches])) fun removed => ?_
    split
    · exact Only.pure ()
    · exact Only.throw _
  unfold acquireLock fileExists
  refine Only.bind (Only.look _) fun _ => Only.bind (Only.look _) fun locked => ?_
  split
  · exact Only.bind hremove fun _ => hwrite
  · exact hwrite

/-- Taking the lock spares the active files. -/
theorem spares_acquireLock (env : FileEnv) (pointer : CurrentPointer) :
    Only (SparesStep pointer) (acquireLock env) :=
  (touchesOnly_acquireLock env).spares (lock_not_active pointer)

/-- The cleanup spares the active files. -/
theorem spares_cleanupOldFiles (env : FileEnv) (store : FileStore) :
    Only (SparesStep ⟨store.snapshot_sequence, store.wal_segment⟩)
      (FileStore.cleanupOldFiles env store) := by
  unfold FileStore.cleanupOldFiles
  refine Only.bind (Only.look _) fun snapshots => Only.bind (Only.look _) fun logs =>
    Only.bind ?_ fun _ => ?_
  · refine (touchesOnly_removeFiles env _).spares fun name hname hvictim => ?_
    obtain ⟨victim, hmem, rfl⟩ := List.mem_map.mp hvictim
    have hother := (List.mem_filter.mp hmem).2
    simp only [activePaths, List.mem_cons, List.not_mem_nil, or_false] at hname
    rcases hname with hname | hname | hname
    · exact ne_of_length (by simp) hname
    · exact absurd (snapshotPathFor_injective hname) (by simpa using hother)
    · exact ne_of_length (by simp) hname
  · refine (touchesOnly_removeFiles env _).spares fun name hname hvictim => ?_
    obtain ⟨victim, hmem, rfl⟩ := List.mem_map.mp hvictim
    have hbefore := (List.mem_filter.mp hmem).2
    simp only [activePaths, List.mem_cons, List.not_mem_nil, or_false] at hname
    rcases hname with hname | hname | hname
    · exact ne_of_length (by simp) hname
    · exact ne_of_length (by simp) hname
    · rw [walPathFor_injective hname] at hbefore
      exact absurd hbefore (by simp)

/-! ## Reading back -/

/-- The bytes that a snapshot file takes. -/
@[simp] theorem length_encodeSnapshotFile (payload : Bytes) :
    (encodeSnapshotFile payload).length = 18 + payload.length := by
  simp only [encodeSnapshotFile, List.length_append, length_le16, length_le32,
    show kSnapshotFileMagic.length = 8 by decide]
  omega

/-- The fields of a snapshot file. -/
theorem encodeSnapshotFile_fields (payload : Bytes) :
    (encodeSnapshotFile payload).take 8 = kSnapshotFileMagic ∧
      getU16 (encodeSnapshotFile payload) 8 = kSnapshotFormatVersion ∧
        getU32 (encodeSnapshotFile payload) 10 = UInt32.ofNat payload.length ∧
          getU32 (encodeSnapshotFile payload) 14 = crc32c payload ∧
            (encodeSnapshotFile payload).drop 18 = payload := by
  have hmagic : kSnapshotFileMagic.length = 8 := by decide
  have hlength := getU32_append 10 (kSnapshotFileMagic ++ le16 kSnapshotFormatVersion)
    (UInt32.ofNat payload.length) (le32 (crc32c payload) ++ payload) (by simp [hmagic])
  have hcrc := getU32_append 14 (kSnapshotFileMagic ++ (le16 kSnapshotFormatVersion ++
    le32 (UInt32.ofNat payload.length))) (crc32c payload) payload (by simp [hmagic])
  simp only [List.append_assoc] at hlength hcrc
  refine ⟨List.take_left' hmagic, getU16_append 8 _ _ _ hmagic, hlength, hcrc, ?_⟩
  unfold encodeSnapshotFile
  iterate 3 rw [← List.append_assoc]
  exact List.drop_left' (by simp [hmagic])

/-- A snapshot file is decoded when its payload is within the bound. -/
theorem decodeSnapshotFile_encode {payload : Bytes} (h : payload.length < 2 ^ 32) :
    decodeSnapshotFile (encodeSnapshotFile payload) =
      if payload.length ≤ kMaxSnapshotPayloadBytes then .ok payload
      else fail .limitExceeded "snapshot payload length exceeds the bound" := by
  obtain ⟨hmagic, hversion, hlength, hcrc, hpayload⟩ := encodeSnapshotFile_fields payload
  have hsize : (UInt32.ofNat payload.length).toNat = payload.length := toNat_size h
  unfold decodeSnapshotFile
  rw [hmagic, hversion, hlength, hcrc, hpayload, length_encodeSnapshotFile, hsize]
  split
  · rename_i hle
    simp [require, hle, bind, Except.bind, pure, Except.pure]
  · rename_i hgt
    simp [require, hgt, bind, Except.bind, fail]

variable {dir : StoreDir} {pointer : CurrentPointer} {disk : Disk} {torn : Bytes}

/-- The bytes that a record takes. -/
theorem length_encodeRecord (type : RecordType) (sequence : Sequence) (payload : Bytes) :
    (encodeRecord type sequence payload).length = kRecordHeaderBytes + payload.length :=
  length_encode ⟨type, sequence, payload⟩

/-- The length of the record in a snapshot file is a word. -/
theorem length_snapshotRecord_lt (sequence : Sequence) {payload : Bytes}
    (hmax : payload.length ≤ kMaxSnapshotPayloadBytes) :
    (encodeRecord .snapshotPayload sequence payload).length < 2 ^ 32 := by
  have hbound : kRecordHeaderBytes + kMaxSnapshotPayloadBytes < 2 ^ 32 := by decide
  rw [length_encodeRecord]
  omega

/-- The snapshot that the files hold is loaded as the record-level store reads it. -/
theorem loadSnapshot_holds (h : Holds dir pointer disk torn) :
    FileStore.loadSnapshot pointer dir = DurableStore.readSnapshot disk := by
  unfold FileStore.loadSnapshot DurableStore.readSnapshot
  rcases h.snapshot with ⟨hzero, hnone⟩ | ⟨sequence, payload, hne, hsome, hmax, hfile⟩
  · rw [if_pos hzero, hnone]
  · have hlength := length_encodeRecord .snapshotPayload sequence payload
    have hlt := length_snapshotRecord_lt sequence hmax
    have hread : readFile (snapshotPathFor pointer.snapshot) (kMaxSnapshotPayloadBytes + 64) dir =
        .ok (encodeSnapshotFile (encodeRecord .snapshotPayload sequence payload)) := by
      have hheader : kRecordHeaderBytes = 28 := rfl
      unfold readFile
      rw [hfile]
      simp only [length_encodeSnapshotFile, hlength]
      rw [if_neg (by omega)]
    rw [if_neg hne, hsome]
    simp only [hfile, hread, decodeSnapshotFile_encode hlt, hlength, bind, Except.bind, require,
      Option.isSome_some, if_true]
    -- the bound on the file is not the one on its record, so there are three ways to fail
    by_cases hfits : kRecordHeaderBytes + payload.length ≤ kMaxSnapshotPayloadBytes
    · simp only [hfits, decide_true, if_true]
      by_cases hrecord : payload.length ≤ kMaxRecordPayloadBytes
      · have hdecode := @decodeRecord_encode ⟨.snapshotPayload, sequence, payload⟩ hrecord []
        rw [List.append_nil] at hdecode
        simp only [Frame.encode] at hdecode
        simp only [hdecode, hrecord, decide_true, if_true]
      · have hdecode := @decodeRecord_oversized ⟨.snapshotPayload, sequence, payload⟩
          (not_le.mp hrecord) (by show payload.length < 2 ^ 32; omega) []
        rw [List.append_nil] at hdecode
        simp only [Frame.encode] at hdecode
        simp only [hdecode, hrecord, decide_false, Bool.false_eq_true, if_false]
        rfl
    · simp only [hfits, decide_false, Bool.false_eq_true, if_false]
      rfl

/-- The records at the front of a log are scanned one after the other. -/
theorem scanLog_append {frames : List Frame}
    (hframes : ∀ frame ∈ frames, frame.payload.length ≤ kMaxRecordPayloadBytes) {fuel : ℕ}
    (hfuel : frames.length ≤ fuel) (rest : Bytes) (scan : DurableStore.Scan) :
    FileStore.scanLog fuel (frames.flatMap Frame.encode ++ rest) scan =
      frames.foldlM DurableStore.scanFrame scan >>= FileStore.scanLog (fuel - frames.length) rest := by
  induction frames generalizing fuel scan with
  | nil => rfl
  | cons frame frames ih =>
    obtain ⟨fuel, rfl⟩ := Nat.exists_eq_succ_of_ne_zero
      (show fuel ≠ 0 by rw [List.length_cons] at hfuel; omega)
    have hdecode := decodeRecord_encode (hframes frame (by simp))
      (frames.flatMap Frame.encode ++ rest)
    rw [List.flatMap_cons, List.append_assoc, FileStore.scanLog, hdecode, List.foldlM_cons]
    simp only [List.drop_left' (length_encode frame)]
    cases hstep : DurableStore.scanFrame scan frame with
    | error status => rfl
    | ok scan' =>
      have hrest := @ih (fun f hf => hframes f (by simp [hf])) fuel
        (by rw [List.length_cons] at hfuel; omega) scan'
      rw [show fuel.succ - (frame :: frames).length = fuel - frames.length by simp]
      exact hrest

/-- Every record takes a byte at least. -/
theorem length_le_flatMap_encode (frames : List Frame) :
    frames.length ≤ (frames.flatMap Frame.encode).length := by
  induction frames with
  | nil => exact Nat.zero_le _
  | cons frame frames ih =>
    have hsize : 0 < frame.size := by
      unfold Frame.size kRecordHeaderBytes
      omega
    rw [List.flatMap_cons, List.length_append, length_encode, List.length_cons]
    omega

/-- The records of a log are scanned one after the other, until part of a record is left. -/
theorem scanLog_frames {frames : List Frame}
    (hframes : ∀ frame ∈ frames, frame.payload.length ≤ kMaxRecordPayloadBytes)
    (htorn : Torn torn) {fuel : ℕ} (hfuel : (frames.flatMap Frame.encode ++ torn).length < fuel)
    (scan : DurableStore.Scan) :
    FileStore.scanLog fuel (frames.flatMap Frame.encode ++ torn) scan =
      (frames.foldlM DurableStore.scanFrame scan).map fun scan => (torn, scan) := by
  have hlength := length_le_flatMap_encode frames
  rw [List.length_append] at hfuel
  rw [scanLog_append hframes (by omega)]
  cases frames.foldlM DurableStore.scanFrame scan with
  | error status => rfl
  | ok scan' =>
    obtain ⟨left, hleft⟩ := Nat.exists_eq_succ_of_ne_zero (show fuel - frames.length ≠ 0 by omega)
    show FileStore.scanLog (fuel - frames.length) torn scan' = .ok (torn, scan')
    rw [hleft, FileStore.scanLog]
    by_cases hempty : torn = []
    · rw [hempty]
      rfl
    · obtain ⟨detail, hdecode⟩ := decodeRecord_torn htorn hempty
      rw [hdecode]

/-- The bytes of the log. -/
theorem length_flatMap_encode (frames : List Frame) :
    (frames.flatMap Frame.encode).length = (frames.map Frame.size).sum := by
  rw [List.length_flatMap]
  congr 1
  exact List.map_congr_left fun frame _ => length_encode frame

/-! ## Opening -/

/-- The steps of an atomic write. -/
def atomicSteps (target bytes : Bytes) : List FileStep :=
  [.create (temporaryFor target) bytes, .rename (temporaryFor target) target]

/-- An atomic write that no fault stops. -/
theorem writeFileAtomic_faultless {env : FileEnv} (h : env.faults = []) (target bytes : Bytes)
    (dir : StoreDir) :
    writeFileAtomic env target bytes dir = (.ok (), atomicSteps target bytes) := by
  unfold writeFileAtomic
  rw [attempt_bind (by rw [h]; rfl)]
  simp only [if_true]
  rw [attempt_bind (by rw [h]; rfl)]
  rfl

/-- An atomic write that succeeds takes the same steps. -/
theorem writeFileAtomic_of_ok {env : FileEnv} {target bytes : Bytes} {steps : List FileStep} {u : Unit}
    (h : writeFileAtomic env target bytes dir = (.ok u, steps)) :
    steps = atomicSteps target bytes := by
  unfold writeFileAtomic at h
  obtain ⟨created, first, later, hcreate, h, rfl⟩ := of_bind_ok h
  cases created with
  | false =>
    obtain ⟨_, _, _, _, hthrow, _⟩ := of_bind_ok h
    exact absurd (Prod.mk.inj hthrow).1 (by simp)
  | true =>
    obtain ⟨renamed, second, last, hrename, h, rfl⟩ := of_bind_ok h
    cases renamed with
    | false =>
      obtain ⟨_, _, _, _, hthrow, _⟩ := of_bind_ok h
      exact absurd (Prod.mk.inj hthrow).1 (by simp)
    | true =>
      obtain ⟨-, rfl⟩ := Prod.mk.inj h
      rw [attempt_of_ok hcreate, attempt_of_ok hrename]
      rfl

/-- What an atomic write leaves in its target. -/
theorem read_atomicSteps (dir : StoreDir) (target bytes : Bytes) :
    (run dir (atomicSteps target bytes)).read target = some bytes := by
  simp [atomicSteps, Step.run]

/-- An atomic write leaves the other files alone. -/
theorem avoids_atomicSteps {name target : Bytes} (bytes : Bytes) (h : name ≠ target)
    (htemporary : name ≠ temporaryFor target) : Avoids name (atomicSteps target bytes) := by
  intro step hstep
  simp only [atomicSteps, List.mem_cons, List.not_mem_nil, or_false] at hstep
  rcases hstep with rfl | rfl <;> simp [Step.touches, h, htemporary]

/-- A temporary file is none of the active files. -/
theorem temporary_not_active (pointer : CurrentPointer) {name target : Bytes}
    (hname : name ∈ activePaths pointer) (htarget : target ∈ activePaths pointer) :
    name ≠ temporaryFor target := by
  refine ne_of_length ?_
  rw [length_temporaryFor]
  simp only [activePaths, List.mem_cons, List.not_mem_nil, or_false] at hname htarget
  rcases hname with rfl | rfl | rfl <;> rcases htarget with rfl | rfl | rfl <;> simp

/-- The steps that cut off part of a record at the end of the log. -/
def repairSteps (pointer : CurrentPointer) (disk : Disk) (torn : Bytes) : List FileStep :=
  if torn = [] then [] else atomicSteps (walPathFor pointer.wal) (disk.log.flatMap Frame.encode)

/-- What a replay of the active log segment returns, and the steps it takes. -/
theorem replayLog_holds {env : FileEnv} (hfaults : env.faults = []) (h : Holds dir pointer disk torn)
    (options : StoreOptions) (sequence : Sequence) :
    FileStore.replayLog env options (walPathFor pointer.wal) sequence dir =
      if (disk.log.map Frame.size).sum + disk.torn_bytes > kMaxWalFileBytes then
        (fail .limitExceeded "durable file exceeds the configured bound", [])
      else
        match disk.log.foldlM DurableStore.scanFrame { last_sequence := sequence } with
        | .error status => (.error status, [])
        | .ok scan =>
          if disk.torn_bytes = 0 ∨ options.allow_torn_tail_recovery then
            (.ok (scan, disk.torn_bytes), repairSteps pointer disk torn)
          else (fail .corrupt "log ends with a partial record and recovery is disabled", []) := by
  have hexists : (fun dir : StoreDir => (.ok (dir.read (walPathFor pointer.wal)).isSome :
      Result Bool)) dir = .ok true := by
    simp only [h.log, Option.isSome_some]
  have hlength : (disk.log.flatMap Frame.encode ++ torn).length =
      (disk.log.map Frame.size).sum + disk.torn_bytes := by
    rw [List.length_append, length_flatMap_encode, h.torn_bytes]
  have hread : readFile (walPathFor pointer.wal) kMaxWalFileBytes dir =
      if (disk.log.map Frame.size).sum + disk.torn_bytes > kMaxWalFileBytes then
        fail .limitExceeded "durable file exceeds the configured bound"
      else .ok (disk.log.flatMap Frame.encode ++ torn) := by
    unfold readFile
    rw [h.log]
    simp only [hlength]
  unfold FileStore.replayLog fileExists
  rw [look_bind hexists, if_pos rfl]
  -- a log that is too long is refused before it is scanned
  by_cases hbound : (disk.log.map Frame.size).sum + disk.torn_bytes > kMaxWalFileBytes
  · rw [if_pos hbound] at hread ⊢
    exact bind_error (by rw [look, hread]; rfl)
  rw [if_neg hbound] at hread ⊢
  have hscan := scanLog_frames h.frames h.partial_record (Nat.lt_succ_self _)
    { last_sequence := sequence }
  rw [look_bind hread]
  cases hfold : disk.log.foldlM DurableStore.scanFrame { last_sequence := sequence } with
  | error status =>
    rw [hfold] at hscan
    exact bind_error (by rw [look, hscan]; rfl)
  | ok scan =>
    rw [hfold] at hscan
    rw [look_bind hscan]
    simp only
    have hzero : torn = [] ↔ disk.torn_bytes = 0 := by
      rw [h.torn_bytes, List.length_eq_zero_iff]
    -- a partial record at the end is cut off, or refused
    by_cases htorn : torn = []
    · rw [if_pos htorn, if_pos (Or.inl (hzero.mp htorn)), repairSteps, if_pos htorn,
        hzero.mp htorn]
      rfl
    · rw [if_neg htorn]
      cases hallow : options.allow_torn_tail_recovery with
      | false =>
        rw [if_neg (by simp [← hzero, htorn])]
        exact bind_error rfl
      | true =>
        rw [if_pos (Or.inr rfl), repairSteps, if_neg htorn,
          look_bind (show (fun _ : StoreDir => require true .corrupt _) dir = .ok () from rfl)]
        have hlead : (disk.log.flatMap Frame.encode ++ torn).take
            ((disk.log.flatMap Frame.encode ++ torn).length - torn.length) =
              disk.log.flatMap Frame.encode := by
          rw [List.length_append, Nat.add_sub_cancel, List.take_left]
        rw [hlead, bind_ok (writeFileAtomic_faultless hfaults _ _ dir), h.torn_bytes]
        rfl

/-- Taking a lock that names no live process, when no fault stops it. -/
theorem acquireLock_faultless {env : FileEnv} (hfaults : env.faults = [])
    (hlock : (checkLock env dir).isOk) :
    acquireLock env dir = (.ok (), (if (dir.read lockPath).isSome then [.remove lockPath] else []) ++
      atomicSteps lockPath (toDecimal env.process_id)) := by
  have hcheck : checkLock env dir = .ok () := eq_ok_value hlock
  unfold acquireLock fileExists
  rw [look_bind hcheck, look_pure_bind]
  split
  · have hremove : removeFileIfPresent env lockPath dir = (.ok (), [.remove lockPath]) := by
      unfold removeFileIfPresent
      rw [attempt_bind (by rw [hfaults]; rfl)]
      rfl
    rw [bind_ok hremove, writeFileAtomic_faultless hfaults]
  · rw [writeFileAtomic_faultless hfaults, List.nil_append]

/-- A lock that names a live process is not taken, and nothing is done. -/
theorem acquireLock_refused {env : FileEnv} (hlock : (checkLock env dir).isOk = false) :
    ∃ status, acquireLock env dir = (.error status, []) := by
  unfold acquireLock
  cases hcheck : checkLock env dir with
  | ok u =>
    rw [hcheck] at hlock
    exact absurd hlock (by simp [Except.isOk, Except.toBool])
  | error status => exact ⟨status, bind_error (by rw [look, hcheck])⟩

/-- Removing files that no fault stops. -/
theorem removeFiles_faultless {env : FileEnv} (h : env.faults = []) (paths : List Bytes)
    (dir : StoreDir) : (removeFiles env paths dir).1 = .ok () := by
  induction paths generalizing dir with
  | nil => rfl
  | cons path paths ih =>
    have hremove : removeFileIfPresent env path dir = (.ok (), [.remove path]) := by
      unfold removeFileIfPresent
      rw [attempt_bind (by rw [h]; rfl)]
      rfl
    rw [removeFiles, bind_ok hremove]
    exact ih _

/-- A cleanup that no fault stops. -/
theorem cleanupOldFiles_faultless {env : FileEnv} (h : env.faults = []) (store : FileStore)
    (dir : StoreDir) : (FileStore.cleanupOldFiles env store dir).1 = .ok () := by
  unfold FileStore.cleanupOldFiles
  rw [look_pure_bind, look_pure_bind, bind_ok (Prod.ext (removeFiles_faultless h _ dir) rfl)]
  exact removeFiles_faultless h _ _

/-- What the store opens to, as a process sees it. -/
def openedStore (pointer : CurrentPointer) (options : StoreOptions) (torn_tail_bytes : ℕ)
    (recovery : DurableStore.Recovery) : FileStore × FileRecovery :=
  ({ options := options
     last_sequence := recovery.store.last_sequence
     wal_segment := pointer.wal
     snapshot_sequence := pointer.snapshot },
    ⟨false, torn_tail_bytes, recovery.snapshot_payload, recovery.replayed⟩)

/-- The pointer is read back. -/
theorem readPointer (hcurrent : dir.read currentPath = some (encodeCurrent pointer))
    (hsegment : pointer.wal ≠ 0) :
    (readFile currentPath 4096 dir >>= decodeCurrent) = .ok pointer := by
  have hlength := length_encodeCurrent_le pointer
  have hread : readFile currentPath 4096 dir = .ok (encodeCurrent pointer) := by
    unfold readFile
    rw [hcurrent]
    simp only
    rw [if_neg (by omega)]
  rw [hread]
  show decodeCurrent (encodeCurrent pointer) = _
  rw [decodeCurrent_encode, if_neg hsegment]

/-- What is done under the lock is what opening the record-level store does: it cuts off part of a
record, and the other steps spare the active files. -/
theorem openLocked_holds {env : FileEnv} (hfaults : env.faults = [])
    (h : Holds dir pointer disk torn) (options : StoreOptions) :
    match DurableStore.openStore disk options.allow_torn_tail_recovery with
    | .error status => (FileStore.openLocked env options dir).1 = .error status
    | .ok recovery => ∃ after, Spares pointer after ∧ FileStore.openLocked env options dir =
        (.ok (openedStore pointer options disk.torn_bytes recovery),
          repairSteps pointer disk torn ++ after) := by
  have hexists : (fun dir : StoreDir => (.ok (dir.read currentPath).isSome : Result Bool)) dir =
      .ok true := by
    simp only [h.current, Option.isSome_some]
  have hpointer := readPointer h.current h.segment
  unfold FileStore.openLocked fileExists
  rw [look_bind hexists, if_pos rfl, look_bind hpointer, DurableStore.openStore_eq]
  cases hsnapshot : DurableStore.readSnapshot disk with
  | error status =>
    exact congrArg Prod.fst (bind_error (by rw [look, loadSnapshot_holds h, hsnapshot]))
  | ok read =>
    obtain ⟨sequence, payload⟩ := read
    rw [look_bind ((loadSnapshot_holds h).trans hsnapshot)]
    have hreplay := replayLog_holds hfaults h options sequence
    simp only
    by_cases hbound : (disk.log.map Frame.size).sum + disk.torn_bytes > kMaxWalFileBytes
    · rw [if_pos hbound] at hreplay ⊢
      exact congrArg Prod.fst (bind_error hreplay)
    rw [if_neg hbound] at hreplay ⊢
    cases hfold : disk.log.foldlM DurableStore.scanFrame { last_sequence := sequence } with
    | error status =>
      rw [hfold] at hreplay
      exact congrArg Prod.fst (bind_error hreplay)
    | ok scan =>
      rw [hfold] at hreplay
      simp only at hreplay ⊢
      by_cases hrepair : disk.torn_bytes = 0 ∨ options.allow_torn_tail_recovery
      · rw [if_pos hrepair] at hreplay ⊢
        have hcleanup := bind_pure_ok (cleanupOldFiles_faultless hfaults
          (openedStore pointer options disk.torn_bytes
            ⟨⟨{ disk with torn_bytes := 0 }, scan.last_sequence⟩, payload, scan.replayed⟩).1
              (run dir (repairSteps pointer disk torn)))
          (openedStore pointer options disk.torn_bytes
            ⟨⟨{ disk with torn_bytes := 0 }, scan.last_sequence⟩, payload, scan.replayed⟩)
        refine ⟨_, spares_of_only (spares_cleanupOldFiles env
          (openedStore pointer options disk.torn_bytes
            ⟨⟨{ disk with torn_bytes := 0 }, scan.last_sequence⟩, payload, scan.replayed⟩).1)
            (run dir (repairSteps pointer disk torn)), ?_⟩
        have hreturned := congrArg Prod.fst hcleanup
        have hsteps := congrArg Prod.snd hcleanup
        rw [bind_ok hreplay]
        exact Prod.ext hreturned (congrArg (repairSteps pointer disk torn ++ ·) hsteps)
      · rw [if_neg hrepair] at hreplay ⊢
        exact congrArg Prod.fst (bind_error hreplay)

/-- Opening the files of a store does what opening the record-level store does, when the lock names
no live process: it fails with the same status, or recovers the same. -/
theorem open_holds {env : FileEnv} (hfaults : env.faults = []) (h : Holds dir pointer disk torn)
    {options : StoreOptions} (hretained : 1 ≤ options.retained_snapshots ∧
      options.retained_snapshots ≤ kMaxRetainedSnapshots) (hlock : (checkLock env dir).isOk) :
    match DurableStore.openStore disk options.allow_torn_tail_recovery with
    | .error status => (FileStore.open_ env options dir).1 = .error status
    | .ok recovery => ∃ before after, Spares pointer before ∧ Spares pointer after ∧
      FileStore.open_ env options dir = (.ok (openedStore pointer options disk.torn_bytes recovery),
        before ++ (repairSteps pointer disk torn ++ after)) := by
  have hrange : (fun _ : StoreDir => require (1 ≤ options.retained_snapshots &&
      options.retained_snapshots ≤ kMaxRetainedSnapshots) .invalidArgument
        "retained snapshot bound out of range") dir = .ok () := by
    simp [require, hretained]
  obtain ⟨before, hacquire⟩ : ∃ before, acquireLock env dir = (.ok (), before) :=
    ⟨_, acquireLock_faultless hfaults hlock⟩
  have hbefore : Spares pointer before := by
    have hspares := spares_of_only (spares_acquireLock env pointer) dir
    rwa [hacquire] at hspares
  have hopened := openLocked_holds hfaults (h.spared hbefore) options
  unfold FileStore.open_ releasingLock
  rw [look_bind hrange, bind_ok hacquire]
  cases hopen : DurableStore.openStore disk options.allow_torn_tail_recovery with
  | error status =>
    rw [hopen] at hopened
    have houtcome : (FileStore.openLocked env options).outcome (run dir before) =
        (.ok (.error status), (FileStore.openLocked env options (run dir before)).2) :=
      Prod.ext (congrArg Except.ok hopened) rfl
    simp only
    rw [bind_ok houtcome]
    simp only
    rw [attempt_bind (by rw [hfaults]; rfl)]
    rfl
  | ok recovery =>
    rw [hopen] at hopened
    obtain ⟨after, hafter, hlocked⟩ := hopened
    have houtcome : (FileStore.openLocked env options).outcome (run dir before) =
        (.ok (.ok (openedStore pointer options disk.torn_bytes recovery)),
          repairSteps pointer disk torn ++ after) := by
      rw [outcome_apply, hlocked]
    refine ⟨before, after, hbefore, hafter, ?_⟩
    rw [bind_ok houtcome]
    simp only [pure_apply, List.append_nil]

/-- An open that succeeds has taken the lock, and succeeds with what is done under it. -/
theorem open_of_ok {env : FileEnv} {options : StoreOptions} {opened : FileStore × FileRecovery}
    {steps : List FileStep} (h : FileStore.open_ env options dir = (.ok opened, steps)) :
    ∃ before later, acquireLock env dir = (.ok (), before) ∧
      FileStore.openLocked env options (run dir before) = (.ok opened, later) ∧
        steps = before ++ later := by
  unfold FileStore.open_ releasingLock at h
  obtain ⟨_, _, rest, hrange, hacquire, rfl⟩ := of_bind_ok h
  obtain ⟨-, rfl⟩ := Prod.mk.inj hrange
  obtain ⟨_, before, later, hlock, hreleasing, rfl⟩ := of_bind_ok hacquire
  obtain ⟨outcome, under, last, hunder, hreturn, rfl⟩ := of_bind_ok hreleasing
  cases outcome with
  | error status =>
    obtain ⟨_, _, _, _, hthrow, _⟩ := of_bind_ok hreturn
    exact absurd (Prod.mk.inj hthrow).1 (by simp)
  | ok opened' =>
    obtain ⟨hopened, rfl⟩ := Prod.mk.inj hreturn
    obtain rfl := Except.ok.inj hopened
    rw [outcome_apply] at hunder
    obtain ⟨houtcome, hsteps⟩ := Prod.mk.inj hunder
    refine ⟨before, under, hlock, Prod.ext (Except.ok.inj houtcome) hsteps, ?_⟩
    rw [List.append_nil]
    rfl

/-- An open that succeeds without a pointer has written the files of an empty store. -/
theorem openLocked_fresh_of_ok {env : FileEnv} {options : StoreOptions}
    {opened : FileStore × FileRecovery} {steps : List FileStep}
    (hnone : dir.read currentPath = none)
    (h : FileStore.openLocked env options dir = (.ok opened, steps)) :
    steps = atomicSteps (walPathFor 1) [] ++ atomicSteps currentPath (encodeCurrent ⟨0, 1⟩) ∧
      opened.1 = ⟨options, 0, 1, 0⟩ := by
  unfold FileStore.openLocked fileExists at h
  rw [look_pure_bind, hnone] at h
  obtain ⟨_, _, rest, hfiles, hfresh, rfl⟩ := of_bind_ok h
  obtain ⟨-, rfl⟩ := Prod.mk.inj hfiles
  obtain ⟨store, written, last, hinitialize, hreturn, rfl⟩ := of_bind_ok hfresh
  obtain ⟨hopened, rfl⟩ := Prod.mk.inj hreturn
  obtain rfl := Except.ok.inj hopened
  unfold FileStore.initializeFresh at hinitialize
  obtain ⟨_, first, _, hwal, hlater, rfl⟩ := of_bind_ok hinitialize
  obtain ⟨_, second, _, hcurrent, hlast, rfl⟩ := of_bind_ok hlater
  obtain ⟨hstore, rfl⟩ := Prod.mk.inj hlast
  rw [writeFileAtomic_of_ok hwal, writeFileAtomic_of_ok hcurrent]
  exact ⟨by simp, (Except.ok.inj hstore).symm⟩

end Fcfn
