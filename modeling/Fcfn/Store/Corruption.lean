import Fcfn.Store.FailedAppend
import Fcfn.Store.Substitution

/-!
# Corruption of the files

One byte of the pointer, of the active snapshot or of the active log segment is another one. Opening
the store then fails, or recovers what it recovers from the files as they were
(`corruption_never_data`). -/

namespace Fcfn

open Words Files Program DurableStore

variable {a b : UInt8} {i : ℕ}

/-- A log with another byte in a complete record is not scanned. -/
theorem scanLog_set_refused {frames : List Frame} {rest : Bytes}
    (hframes : ∀ frame ∈ frames, frame.payload.length ≤ kMaxRecordPayloadBytes) {fuel : ℕ}
    (hfuel : frames.length ≤ fuel) (hinside : i < (frames.flatMap Frame.encode).length)
    (hi : (frames.flatMap Frame.encode ++ rest)[i]? = some a) (hne : a ≠ b) (scan : Scan)
    (scanned : Bytes × Scan) :
    FileStore.scanLog fuel ((frames.flatMap Frame.encode ++ rest).set i b) scan ≠ .ok scanned := by
  induction frames generalizing fuel i scan with
  | nil => exact absurd hinside (Nat.not_lt_zero i)
  | cons frame frames ih =>
    obtain ⟨fuel, rfl⟩ := Nat.exists_eq_succ_of_ne_zero
      (show fuel ≠ 0 by rw [List.length_cons] at hfuel; omega)
    have hmax := hframes frame (by simp)
    have hsize := length_encode frame
    rw [List.flatMap_cons, List.length_append, hsize] at hinside
    rw [List.flatMap_cons, List.append_assoc] at hi ⊢
    intro h
    rw [FileStore.scanLog] at h
    rcases Nat.lt_or_ge i frame.size with hfirst | hlater
    · obtain ⟨status, detail, hrefused⟩ := decodeRecord_set hmax hfirst hi hne
      rw [hrefused] at h
      exact absurd h (by simp [fail])
    · rw [List.getElem?_append_right (by omega), hsize] at hi
      rw [List.set_append_right _ _ (by omega), hsize, decodeRecord_encode hmax] at h
      simp only [List.drop_left' hsize] at h
      rw [bind_eq_ok] at h
      obtain ⟨scan₁, -, hrest⟩ := h
      exact ih (fun f hf => hframes f (by simp [hf])) (by rw [List.length_cons] at hfuel; omega)
        (by omega) hi scan₁ hrest

/-- A scan that gets past a substituted byte has taken every record, and stops at part of one. -/
theorem scanLog_set {frames : List Frame} {torn : Bytes}
    (hframes : ∀ frame ∈ frames, frame.payload.length ≤ kMaxRecordPayloadBytes) (htorn : Torn torn)
    {fuel : ℕ} (hfuel : frames.length < fuel) (hi : (frames.flatMap Frame.encode ++ torn)[i]? = some a)
    (hne : a ≠ b) {scan scan' : Scan} {remaining : Bytes}
    (h : FileStore.scanLog fuel ((frames.flatMap Frame.encode ++ torn).set i b) scan =
      .ok (remaining, scan')) :
    frames.foldlM scanFrame scan = .ok scan' ∧ remaining ≠ [] := by
  rcases Nat.lt_or_ge i (frames.flatMap Frame.encode).length with hinside | hbehind
  · exact absurd h (scanLog_set_refused hframes hfuel.le hinside hi hne scan _)
  rw [List.getElem?_append_right hbehind] at hi
  rw [List.set_append_right _ _ hbehind, scanLog_append hframes hfuel.le, bind_eq_ok] at h
  obtain ⟨scan₁, hscan, hrest⟩ := h
  obtain ⟨left, hleft⟩ := Nat.exists_eq_succ_of_ne_zero (show fuel - frames.length ≠ 0 by omega)
  rw [hleft, FileStore.scanLog] at hrest
  rcases decodeRecord_torn_set htorn hi hne with ⟨status, detail, hrefused⟩ | ⟨detail, hcut⟩
  · rw [hrefused] at hrest
    exact absurd hrest (by simp [fail])
  · rw [hcut] at hrest
    obtain ⟨hremaining, rfl⟩ := Prod.mk.inj (Except.ok.inj hrest)
    refine ⟨hscan, ?_⟩
    rw [← hremaining, Ne, List.set_eq_nil_iff]
    rintro rfl
    exact absurd hi (by simp)

/-! ## The files -/

/-- A file that an open reads. -/
def ActiveFile (dir : StoreDir) (name : Bytes) : Prop :=
  ∃ bytes pointer, dir.read currentPath = some bytes ∧ decodeCurrent bytes = .ok pointer ∧
    name ∈ activePaths pointer

section Substituted

variable {dir : StoreDir} {pointer : CurrentPointer} {disk : Disk} {torn : Bytes} {name bytes : Bytes}

/-- The active files of a store. -/
theorem Holds.activeFile (h : Holds dir pointer disk torn) (hactive : ActiveFile dir name) :
    name ∈ activePaths pointer := by
  obtain ⟨text, pointer', hread, hdecode, hname⟩ := hactive
  obtain rfl := Option.some.inj (h.current.symm.trans hread)
  rw [decodeCurrent_encode, if_neg h.segment] at hdecode
  obtain rfl := Except.ok.inj hdecode
  exact hname

/-- The pointer that is read with another byte in a file. -/
theorem Holds.readPointer_set (h : Holds dir pointer disk torn) (hread : dir.read name = some bytes)
    (hi : bytes[i]? = some a) (hne : a ≠ b) {pointer' : CurrentPointer}
    (hpointer : (readFile currentPath 4096 (dir.write name (bytes.set i b)) >>= decodeCurrent) =
      .ok pointer') : pointer' = pointer := by
  rw [bind_eq_ok] at hpointer
  obtain ⟨text, htext, hdecode⟩ := hpointer
  unfold readFile at htext
  by_cases hname : currentPath = name
  · subst hname
    obtain rfl := Option.some.inj (h.current.symm.trans hread)
    rw [Dir.read_write] at htext
    simp only at htext
    split at htext
    · exact absurd htext (by simp [fail])
    · obtain rfl := Except.ok.inj htext
      exact decodeCurrent_set h.segment hi hne hdecode
  · rw [Dir.read_write_of_ne _ _ hname, h.current] at htext
    simp only at htext
    split at htext
    · exact absurd htext (by simp [fail])
    · obtain rfl := Except.ok.inj htext
      rw [decodeCurrent_encode, if_neg h.segment] at hdecode
      exact (Except.ok.inj hdecode).symm

/-- The snapshot that is loaded with another byte in a file. -/
theorem Holds.loadSnapshot_set (h : Holds dir pointer disk torn) (hread : dir.read name = some bytes)
    (hi : bytes[i]? = some a) (hne : a ≠ b) {loaded : Sequence × Bytes}
    (hload : FileStore.loadSnapshot pointer (dir.write name (bytes.set i b)) = .ok loaded) :
    DurableStore.readSnapshot disk = .ok loaded := by
  by_cases hname : snapshotPathFor pointer.snapshot = name
  · rcases h.snapshot with ⟨hzero, hnone⟩ | ⟨sequence, payload, hsome, -, hmax, hfile⟩
    · rw [FileStore.loadSnapshot, if_pos hzero] at hload
      rw [readSnapshot, hnone]
      exact hload
    · exfalso
      obtain rfl := Option.some.inj (hfile.symm.trans (hname ▸ hread))
      rw [FileStore.loadSnapshot, if_neg hsome, hname, require_bind_eq_ok] at hload
      obtain ⟨-, hload⟩ := hload
      rw [bind_eq_ok] at hload
      obtain ⟨raw, hraw, hload⟩ := hload
      rw [bind_eq_ok] at hload
      obtain ⟨decoded, hdecode, -⟩ := hload
      unfold readFile at hraw
      rw [Dir.read_write] at hraw
      simp only at hraw
      split at hraw
      · exact absurd hraw (by simp [fail])
      · obtain rfl := Except.ok.inj hraw
        exact decodeSnapshotFile_set (length_snapshotRecord_lt sequence hmax) hi hne decoded hdecode
  · rw [FileStore.loadSnapshot_congr (Dir.read_write_of_ne _ _ hname), loadSnapshot_holds h] at hload
    exact hload

/-- The log that is scanned with another byte in a file. -/
theorem Holds.scanLog_set (h : Holds dir pointer disk torn) (hread : dir.read name = some bytes)
    (hi : bytes[i]? = some a) (hne : a ≠ b) {raw remaining : Bytes} {scan scan' : Scan}
    (hlog : FileStore.readLog (walPathFor pointer.wal) (dir.write name (bytes.set i b)) = .ok raw)
    (hscan : FileStore.scanLog (raw.length + 1) raw scan = .ok (remaining, scan')) :
    (disk.log.map Frame.size).sum + disk.torn_bytes ≤ kMaxWalFileBytes ∧
      disk.log.foldlM scanFrame scan = .ok scan' ∧ (disk.torn_bytes = 0 ∨ remaining ≠ []) := by
  have hlength := length_le_flatMap_encode disk.log
  have hbytes : (disk.log.flatMap Frame.encode ++ torn).length =
      (disk.log.map Frame.size).sum + disk.torn_bytes := by
    rw [List.length_append, length_flatMap_encode, h.torn_bytes]
  by_cases hname : walPathFor pointer.wal = name
  · subst hname
    obtain rfl := Option.some.inj (h.log.symm.trans hread)
    obtain ⟨rfl, hfits⟩ := FileStore.readLog_of_ok (Dir.read_write _ _ _) hlog
    rw [List.length_set] at hfits hscan
    obtain ⟨hfold, hremaining⟩ := Fcfn.scanLog_set h.frames h.partial_record
      (by rw [List.length_append]; omega) hi hne hscan
    exact ⟨hbytes ▸ hfits, hfold, Or.inr hremaining⟩
  · have hsame := (Dir.read_write_of_ne dir (bytes.set i b) hname).trans h.log
    obtain ⟨rfl, hfits⟩ := FileStore.readLog_of_ok hsame hlog
    rw [scanLog_frames h.frames h.partial_record (Nat.lt_succ_self _)] at hscan
    cases hfold : disk.log.foldlM scanFrame scan with
    | error status =>
      rw [hfold] at hscan
      exact absurd hscan (by simp [Except.map])
    | ok scanned =>
      rw [hfold] at hscan
      obtain ⟨rfl, rfl⟩ := Prod.mk.inj (Except.ok.inj hscan)
      refine ⟨hbytes ▸ hfits, rfl, ?_⟩
      rw [h.torn_bytes, List.length_eq_zero_iff]
      exact Classical.em _

/-- Opening with another byte in a file recovers what opening the files as they were recovers. -/
theorem Holds.open_set (h : Holds dir pointer disk torn)
    (hsnapshot : ∀ p ∈ disk.snapshot, p.2.length ≤ kMaxRecordPayloadBytes)
    (hascends : DurableStore.Ascends (snapshotSequence disk.snapshot) disk.log)
    (hread : dir.read name = some bytes) (hi : bytes[i]? = some a) (hne : a ≠ b) {env : FileEnv}
    {options : StoreOptions} (hopen : MayOpen dir env options) {opened' : FileStore × FileRecovery}
    (hok : (FileStore.open_ env options (dir.write name (bytes.set i b))).1 = .ok opened') :
    ∃ opened, (FileStore.open_ env options dir).1 = .ok opened ∧
      opened'.2.snapshot_payload = opened.2.snapshot_payload ∧
        opened'.2.replayed = opened.2.replayed := by
  have hcurrent : ((dir.write name (bytes.set i b)).read currentPath).isSome := by
    by_cases hname : currentPath = name
    · rw [hname, Dir.read_write]
      rfl
    · rw [Dir.read_write_of_ne _ _ hname, h.current]
      rfl
  obtain ⟨reading, hreading, rfl⟩ := FileStore.open_reads hcurrent (Prod.ext hok rfl)
  obtain ⟨sequence, raw, hpointer, hload, hlog, hscan, hallow⟩ := FileStore.readFiles_of_ok hreading
  rw [h.readPointer_set hread hi hne hpointer] at hload hlog
  have hloaded := h.loadSnapshot_set hread hi hne hload
  rw [readSnapshot_fits hsnapshot, Except.ok.injEq, Prod.mk.injEq] at hloaded
  obtain ⟨rfl, hpayload⟩ := hloaded
  obtain ⟨hfits, hfold, hremaining⟩ := h.scanLog_set hread hi hne hlog hscan
  obtain ⟨previous, hreplayed⟩ := @DurableStore.Ascends.scan disk.log
    { last_sequence := snapshotSequence disk.snapshot } hascends (by simp)
  have hscanned := Except.ok.inj (hfold.symm.trans hreplayed)
  obtain ⟨hfaults, hretained, hlock⟩ := hopen
  have hopened := open_holds hfaults h hretained hlock
  have hrepair : disk.torn_bytes = 0 ∨ options.allow_torn_tail_recovery :=
    hremaining.imp id hallow.resolve_left
  rw [openStore_ascends hsnapshot hfits hascends hrepair] at hopened
  obtain ⟨before, after, -, -, hopened⟩ := hopened
  refine ⟨_, congrArg Prod.fst hopened, hpayload.symm, ?_⟩
  show reading.scan.replayed = disk.log
  rw [hscanned]
  exact List.nil_append _

/-- A complete record of the log with another byte is never recovered. -/
theorem Holds.open_set_refused (h : Holds dir pointer disk torn)
    (hread : dir.read (walPathFor pointer.wal) = some bytes) {frames : List Frame} {rest : Bytes}
    (hbytes : bytes = frames.flatMap Frame.encode ++ rest)
    (hframes : ∀ frame ∈ frames, frame.payload.length ≤ kMaxRecordPayloadBytes)
    (hinside : i < (frames.flatMap Frame.encode).length) (hi : bytes[i]? = some a) (hne : a ≠ b)
    (env : FileEnv) (options : StoreOptions) (opened : FileStore × FileRecovery) :
    (FileStore.open_ env options (dir.write (walPathFor pointer.wal) (bytes.set i b))).1 ≠
      .ok opened := by
  intro hok
  have hother : currentPath ≠ walPathFor pointer.wal := ne_of_length (by simp)
  have hcurrent := (Dir.read_write_of_ne dir (bytes.set i b) hother).trans h.current
  obtain ⟨reading, hreading, -⟩ := FileStore.open_reads (by rw [hcurrent]; rfl) (Prod.ext hok rfl)
  obtain ⟨sequence, raw, hpointer, -, hlog, hscan, -⟩ := FileStore.readFiles_of_ok hreading
  rw [h.readPointer_set hread hi hne hpointer] at hlog
  obtain ⟨rfl, -⟩ := FileStore.readLog_of_ok (Dir.read_write _ _ _) hlog
  have hlength := length_le_flatMap_encode frames
  subst hbytes
  rw [List.length_set, List.length_append] at hscan
  exact scanLog_set_refused hframes (by omega) hinside hi hne _ _ hscan

end Substituted

/-- After any run of a store, its log possibly ending in part of a record: when one byte of a file
that an open reads is another one, an open fails, or recovers the snapshot and the records that it
recovers from the files as they were. When the byte is in a complete record of the log, it fails. -/
theorem corruption_never_data {env : FileEnv} {options : StoreOptions}
    (hok : (StoreSystem.reply {} (.open_ env options)).isOk) {events : List StoreEvent}
    (h : Runs.Along StoreSystem.next (fun sys event => StoreAssumed sys event ∧ Rotates sys event)
      (.initialized env options) events) {sys : StoreSystem}
    (hreached : Runs.exec StoreSystem.next (.initialized env options) events = sys)
    {name bytes : Bytes} (hactive : ActiveFile sys.dir name) (hread : sys.dir.read name = some bytes)
    (hi : bytes[i]? = some a) (hne : a ≠ b) :
    (∀ env' options', MayOpen sys.dir env' options' → ∀ opened',
      (FileStore.open_ env' options' (sys.dir.write name (bytes.set i b))).1 = .ok opened' →
        ∃ opened, (FileStore.open_ env' options' sys.dir).1 = .ok opened ∧
          opened'.2.snapshot_payload = opened.2.snapshot_payload ∧
            opened'.2.replayed = opened.2.replayed) ∧
      ∀ (segment : SnapshotSequence) (frames : List Frame) (rest : Bytes),
        name = walPathFor segment → bytes = frames.flatMap Frame.encode ++ rest →
        (∀ frame ∈ frames, frame.payload.length ≤ kMaxRecordPayloadBytes) →
          i < (frames.flatMap Frame.encode).length → ∀ env' options' opened',
            (FileStore.open_ env' options' (sys.dir.write name (bytes.set i b))).1 ≠ .ok opened' := by
  obtain ⟨pointer, disk, torn, hinv⟩ := store_invariant hok h rfl
  rw [Runs.exec_observe, hreached] at hinv
  have hname := hinv.holds.activeFile hactive
  refine ⟨fun env' options' hopen opened' hopened =>
    hinv.holds.open_set hinv.fits hinv.ascends hread hi hne hopen hopened, ?_⟩
  rintro segment frames rest rfl hbytes hframes hinside env' options' opened'
  have hsegment : segment = pointer.wal := by
    simp only [activePaths, List.mem_cons, List.not_mem_nil, or_false] at hname
    rcases hname with hcurrent | hsnapshot | hwal
    · exact absurd hcurrent (ne_of_length (by simp))
    · exact absurd hsnapshot (ne_of_length (by simp))
    · exact walPathFor_injective hwal
  subst hsegment
  exact hinv.holds.open_set_refused hread hbytes hframes hinside hi hne env' options' opened'

namespace Sample

/-- A store with a record and part of another one in its log. -/
def torn : StoreSystem :=
  Runs.exec StoreSystem.next (.initialized (process 1) {})
    [commits 1 "first", .crash (.commit (process 1) .startupMarker (bytesOf "second")) 0 (some 30)]

/-- The log of that store. -/
def tornLog : Bytes :=
  Frame.encode ⟨.startupMarker, 1, bytesOf "first"⟩ ++
    (Frame.encode ⟨.startupMarker, 2, bytesOf "second"⟩).take 30

end Sample

/-- Another byte in the part of a record at the end of the log: the record before it is recovered. -/
theorem corruption_never_data_torn :
    (FileStore.open_ (Sample.process 2) {}
      (Sample.torn.dir.write (walPathFor 1) (Sample.tornLog.set 62 0))).1.isOk ∧
      ∀ opened', (FileStore.open_ (Sample.process 2) {}
        (Sample.torn.dir.write (walPathFor 1) (Sample.tornLog.set 62 0))).1 = .ok opened' →
          ∃ opened, (FileStore.open_ (Sample.process 2) {} Sample.torn.dir).1 = .ok opened ∧
            opened'.2.snapshot_payload = opened.2.snapshot_payload ∧
              opened'.2.replayed = opened.2.replayed :=
  ⟨by decide +kernel,
    (@corruption_never_data (byteOf 'e') 0 62 (Sample.process 1) {} (by decide +kernel) _
      (by decide +kernel) Sample.torn rfl (walPathFor 1) Sample.tornLog
      ⟨encodeCurrent ⟨0, 1⟩, ⟨0, 1⟩, by decide +kernel, by decide +kernel, by decide +kernel⟩
      (by decide +kernel) (by decide +kernel) (by decide +kernel)).1 (Sample.process 2) {}
        (by decide +kernel)⟩

end Fcfn
