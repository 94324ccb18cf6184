import Fcfn.Store.FirstOpen

/-!
# Retention

Snapshots are numbered, and so are log segments, and a file carries its number in its name in
sixteen hexadecimal digits. The cleanup reads the numbers back as decimal ones. Up to nine the two
agree: the newest snapshots within the bound are kept, and one log segment (`Lists`). The log segment
of number ten has a name that is not read back at all, so the tenth snapshot leaves it behind. -/

namespace Fcfn

open Words Files Program

/-- Whether a name is one of a snapshot. -/
def isSnapshotName (name : Bytes) : Bool := (bytesOf "snapshot-").isPrefixOf name

/-- Whether a name is one of a log segment. -/
def isLogName (name : Bytes) : Bool := (bytesOf "wal-").isPrefixOf name

/-- The names of some snapshots, from one number on. -/
def snapshotNames (first count : ℕ) : List Bytes :=
  (List.range' first count).map fun n => snapshotPathFor (UInt64.ofNat n)

/-- The files of a live store: of the snapshots the newest ones within the bound, the active one among
them when there is one, and of the log segments the active one. -/
def Retained (store : FileStore) (dir : StoreDir) : Prop :=
  (∃ kept ≤ store.options.retained_snapshots, kept ≤ store.snapshot_sequence.toNat ∧
    (store.snapshot_sequence ≠ 0 → 0 < kept) ∧
      (dir.listing isSnapshotName).Perm
        (snapshotNames (store.snapshot_sequence.toNat + 1 - kept) kept)) ∧
    dir.listing isLogName = [walPathFor store.wal_segment]

instance (store : FileStore) (dir : StoreDir) : Decidable (Retained store dir) :=
  have : Decidable (∃ kept ≤ store.options.retained_snapshots,
      kept ≤ store.snapshot_sequence.toNat ∧ (store.snapshot_sequence ≠ 0 → 0 < kept) ∧
        (dir.listing isSnapshotName).Perm
          (snapshotNames (store.snapshot_sequence.toNat + 1 - kept) kept)) :=
    decidable_of_iff (∃ kept < store.options.retained_snapshots + 1,
      kept ≤ store.snapshot_sequence.toNat ∧ (store.snapshot_sequence ≠ 0 → 0 < kept) ∧
        (dir.listing isSnapshotName).Perm
          (snapshotNames (store.snapshot_sequence.toNat + 1 - kept) kept)) (by
      simp only [Nat.lt_succ_iff])
  inferInstanceAs (Decidable (_ ∧ _))

/-! ## The use of a store -/

/-- What happens to a store that no crash interrupts within a call. -/
inductive StoreUse
  | call (call : StoreCall)
  /-- The process closes the store, and gives the lock back if the file system lets it. -/
  | close (env : FileEnv)
  /-- The process stops between two calls. -/
  | stop
  deriving DecidableEq

/-- The store after it was used. -/
def StoreSystem.use (sys : StoreSystem) : StoreUse → StoreSystem
  | .call call => sys.next (.call call)
  | .close env =>
    match sys.store with
    | none => sys
    | some _ => ⟨run sys.dir (attempt (ε := Status) env.faults (.remove lockPath) sys.dir).2, none⟩
  | .stop => ⟨sys.dir, none⟩

/-- What is assumed: a store that is not open is opened, and snapshots are written. -/
def UseAssumed (sys : StoreSystem) : StoreUse → Prop
  | .call (.open_ env options) => sys.store = none → (sys.reply (.open_ env options)).isOk
  | .call (.writeSnapshot env payload) => (sys.reply (.writeSnapshot env payload)).isOk
  | _ => True

instance (sys : StoreSystem) : (use : StoreUse) → Decidable (UseAssumed sys use)
  | .call (.open_ env options) =>
    have : Decidable (sys.store = none) := decidable_of_iff (sys.store.isNone = true) (by simp)
    inferInstanceAs (Decidable (sys.store = none → (sys.reply (.open_ env options)).isOk = true))
  | .call (.writeSnapshot env payload) =>
    inferInstanceAs (Decidable ((sys.reply (.writeSnapshot env payload)).isOk = true))
  | .call (.commit _ _ _) | .close _ | .stop => isTrue trivial

/-- After it was used, the files of a live store are within the bound. -/
def RetentionKept (sys : StoreSystem) (use : StoreUse) : Prop :=
  ∀ store ∈ (sys.use use).store, Retained store (sys.use use).dir

instance (sys : StoreSystem) (use : StoreUse) : Decidable (RetentionKept sys use) :=
  (Option.decidableForallMem _ :
    Decidable (∀ store ∈ (sys.use use).store, Retained store (sys.use use).dir))

/-- A snapshot is written while the number of the active one is below nine. -/
def FewSnapshots (sys : StoreSystem) : StoreUse → Prop
  | .call (.writeSnapshot _ _) => ∀ store ∈ sys.store, store.snapshot_sequence < 9
  | _ => True

/-! ## Steps on the listing -/

variable {dir : StoreDir} {env : FileEnv} {p : Bytes → Bool}

/-- An atomic write lists its target first, and its temporary file no more. -/
theorem listing_atomicSteps (dir : StoreDir) (target bytes : Bytes) :
    (run dir (atomicSteps target bytes)).listing p = (if p target then [target] else []) ++
      ((dir.listing p).filter (· ≠ temporaryFor target)).filter (· ≠ target) := by
  have hread : (dir.write (temporaryFor target) bytes).read (temporaryFor target) = some bytes :=
    Dir.read_write _ _ _
  simp only [atomicSteps, run_cons, run_nil, Step.run, hread, Dir.listing_write, Dir.listing_remove,
    List.filter_append, List.filter_filter, Bool.and_self]
  congr 1
  split <;> simp

/-- An atomic write of a file that is not of the kind leaves the listing. -/
theorem listing_atomicSteps_other (dir : StoreDir) {target : Bytes} (bytes : Bytes)
    (htarget : p target = false) (htemporary : p (temporaryFor target) = false) :
    (run dir (atomicSteps target bytes)).listing p = dir.listing p := by
  rw [listing_atomicSteps, htarget, Dir.listing_filter_ne dir htemporary,
    Dir.listing_filter_ne dir htarget]
  rfl

/-- The steps of a removal that succeeds. -/
theorem removeFiles_of_ok {paths : List Bytes} {u : Unit} {steps : List FileStep}
    (h : removeFiles env paths dir = (.ok u, steps)) : steps = paths.map .remove := by
  induction paths generalizing dir steps with
  | nil => exact (Prod.mk.inj h).2.symm
  | cons path paths ih =>
    obtain ⟨_, first, later, hpath, hlater, rfl⟩ := of_bind_ok h
    unfold removeFileIfPresent at hpath
    obtain ⟨removed, _, _, hremove, hreturn, rfl⟩ := of_bind_ok hpath
    cases removed with
    | false => exact absurd (Prod.mk.inj hreturn).1 (by simp)
    | true =>
      obtain ⟨-, rfl⟩ := Prod.mk.inj hreturn
      rw [attempt_of_ok hremove, ih hlater]
      rfl

/-- The snapshots that a cleanup removes. -/
def victims (store : FileStore) (dir : StoreDir) : List UInt64 :=
  ((FileStore.fileNumbers (bytesOf "snapshot-") dir).take
    ((FileStore.fileNumbers (bytesOf "snapshot-") dir).length -
      store.options.retained_snapshots)).filter (· != store.snapshot_sequence)

/-- The log segments that a cleanup removes. -/
def oldLogs (store : FileStore) (dir : StoreDir) : List UInt64 :=
  (FileStore.fileNumbers (bytesOf "wal-") dir).filter (· < store.wal_segment)

/-- What a cleanup that succeeds removes. -/
theorem cleanupOldFiles_of_ok {store : FileStore} {u : Unit} {steps : List FileStep}
    (h : FileStore.cleanupOldFiles env store dir = (.ok u, steps)) :
    steps = ((victims store dir).map snapshotPathFor).map .remove ++
      ((oldLogs store dir).map walPathFor).map .remove := by
  unfold FileStore.cleanupOldFiles at h
  obtain ⟨snapshots, hsnapshots, h⟩ := of_look_bind_ok h
  obtain ⟨logs, hlogs, h⟩ := of_look_bind_ok h
  obtain ⟨_, first, later, hfirst, hlater, rfl⟩ := of_bind_ok h
  obtain rfl := Except.ok.inj hsnapshots
  obtain rfl := Except.ok.inj hlogs
  rw [removeFiles_of_ok hfirst, removeFiles_of_ok hlater]
  rfl

/-! ## Numbers in names -/

/-- A name that does not start with the word has no number. -/
theorem fileNumber_of_foreign {word name : Bytes} (h : word.isPrefixOf name = false) :
    FileStore.fileNumber word name = none := by
  unfold FileStore.fileNumber
  rw [h]
  rfl

/-- The numbers that a cleanup works with are those of the listed names. -/
theorem fileNumbers_perm (word : Bytes) (dir : StoreDir) :
    (FileStore.fileNumbers word dir).Perm
      ((dir.listing word.isPrefixOf).filterMap (FileStore.fileNumber word)) := by
  have hlisted : (dir.listing word.isPrefixOf).filterMap (FileStore.fileNumber word) =
      dir.filterMap fun file => FileStore.fileNumber word file.1 := by
    unfold Dir.listing
    rw [List.filterMap_filter, List.filterMap_map]
    refine List.filterMap_congr fun file _ => ?_
    simp only [Function.comp]
    split
    · rfl
    · rename_i hprefix
      rw [fileNumber_of_foreign (Bool.eq_false_iff.mpr hprefix)]
  rw [hlisted]
  exact List.perm_insertionSort _ _

/-- They are in order. -/
theorem fileNumbers_eq {word : Bytes} {numbers : List UInt64}
    (hperm : ((dir.listing word.isPrefixOf).filterMap (FileStore.fileNumber word)).Perm numbers)
    (hsorted : numbers.Pairwise (· ≤ ·)) : FileStore.fileNumbers word dir = numbers :=
  List.Perm.eq_of_pairwise' (List.pairwise_insertionSort _ _) hsorted
    ((fileNumbers_perm word dir).trans hperm)

/-- Up to nine a number is read back from a name. -/
theorem fileNumber_small : ∀ n < 10,
    FileStore.fileNumber (bytesOf "snapshot-") (snapshotPathFor (UInt64.ofNat n)) =
        some (UInt64.ofNat n) ∧
      FileStore.fileNumber (bytesOf "wal-") (walPathFor (UInt64.ofNat n)) = some (UInt64.ofNat n) := by
  decide

/-- The numbers from ten to fifteen are not. -/
theorem fileNumber_ten : FileStore.fileNumber (bytesOf "wal-") (walPathFor 10) = none ∧
    FileStore.fileNumber (bytesOf "wal-") (walPathFor 11) = none := by
  decide

/-! ## The cleanup -/

/-- The directory lists the snapshots after one number and up to another, and one log segment. -/
structure Lists (dir : StoreDir) (removed last : ℕ) : Prop where
  snapshots : (dir.listing isSnapshotName).Perm (snapshotNames (removed + 1) (last - removed))
  logs : dir.listing isLogName = [walPathFor (UInt64.ofNat (last + 1))]
  removed_le : removed ≤ last
  removed_lt : 0 < last → removed < last

/-- The numbers of words are ordered as the words are. -/
theorem ofNat_le {m n : ℕ} (h : m ≤ n) (hn : n < 12) : UInt64.ofNat m ≤ UInt64.ofNat n := by
  have hsize : 12 < UInt64.size := by decide
  rw [UInt64.le_iff_toNat_le, UInt64.toNat_ofNat_of_lt' (by omega),
    UInt64.toNat_ofNat_of_lt' (by omega)]
  exact h

/-- Words of different numbers are different. -/
theorem ofNat_inj {m n : ℕ} (hm : m < 12) (hn : n < 12) (h : UInt64.ofNat m = UInt64.ofNat n) :
    m = n := by
  have hsize : 12 < UInt64.size := by decide
  have hnat := congrArg UInt64.toNat h
  rwa [UInt64.toNat_ofNat_of_lt' (by omega), UInt64.toNat_ofNat_of_lt' (by omega)] at hnat

/-- The numbers of the names of snapshots, up to nine. -/
theorem filterMap_snapshotNames {first count : ℕ} (h : first + count ≤ 10) :
    (snapshotNames first count).filterMap (FileStore.fileNumber (bytesOf "snapshot-")) =
      (List.range' first count).map UInt64.ofNat := by
  unfold snapshotNames
  rw [List.filterMap_map, List.filterMap_eq_map_iff_forall_eq_some]
  intro n hn
  have hlt := (List.mem_range'_1.mp hn).2
  rw [Function.comp_apply, (fileNumber_small n (by omega)).1]

/-- The numbers of the listed snapshots, up to nine. -/
theorem fileNumbers_snapshots {removed last : ℕ} (hle : removed ≤ last) (hlast : last < 10)
    (h : (dir.listing isSnapshotName).Perm (snapshotNames (removed + 1) (last - removed))) :
    FileStore.fileNumbers (bytesOf "snapshot-") dir =
      (List.range' (removed + 1) (last - removed)).map UInt64.ofNat := by
  have hnames := filterMap_snapshotNames (show removed + 1 + (last - removed) ≤ 10 by omega)
  refine fileNumbers_eq ((h.filterMap _).trans (List.Perm.of_eq hnames)) ?_
  rw [List.pairwise_map]
  refine List.Pairwise.imp_of_mem (fun {m n} _ hn hlt => ?_) List.pairwise_lt_range'
  have hlt' := (List.mem_range'_1.mp hn).2
  exact ofNat_le hlt.le (by omega)

/-- The snapshots that a cleanup removes are the oldest ones past the bound. -/
theorem victims_eq {store : FileStore} {removed last : ℕ} (hle : removed ≤ last) (hlast : last < 10)
    (hactive : store.snapshot_sequence = UInt64.ofNat last)
    (hretained : 1 ≤ store.options.retained_snapshots)
    (h : (dir.listing isSnapshotName).Perm (snapshotNames (removed + 1) (last - removed))) :
    victims store dir = (List.range' (removed + 1)
      (last - removed - store.options.retained_snapshots)).map UInt64.ofNat := by
  unfold victims
  rw [fileNumbers_snapshots hle hlast h, List.length_map, List.length_range', ← List.map_take,
    List.take_range'_of_length_ge (Nat.sub_le _ _), List.filter_eq_self]
  intro n hn
  obtain ⟨m, hm, rfl⟩ := List.mem_map.mp hn
  have hmem := List.mem_range'_1.mp hm
  simp only [bne_iff_ne, ne_eq, hactive]
  intro heq
  have hsame := ofNat_inj (by omega) (by omega) heq
  omega

/-- Names of snapshots in a row are those up to a number and those after it. -/
theorem snapshotNames_append (first count count' : ℕ) :
    snapshotNames first (count + count') =
      snapshotNames first count ++ snapshotNames (first + count) count' := by
  unfold snapshotNames
  rw [← List.map_append, List.range'_append_1]

/-- The names of different snapshots are different. -/
theorem mem_snapshotNames {first count n : ℕ} (h : first + count ≤ 12) (hn : n < 12) :
    snapshotPathFor (UInt64.ofNat n) ∈ snapshotNames first count ↔ first ≤ n ∧ n < first + count := by
  unfold snapshotNames
  rw [List.mem_map]
  constructor
  · rintro ⟨m, hm, heq⟩
    have hmem := List.mem_range'_1.mp hm
    have hsame := ofNat_inj (by omega) hn (snapshotPathFor_injective heq)
    omega
  · intro hmem
    exact ⟨n, List.mem_range'_1.mpr hmem, rfl⟩

/-- The names of the two kinds of files, and of their temporary files. -/
theorem isSnapshotName_snapshotPathFor (n : UInt64) : isSnapshotName (snapshotPathFor n) = true ∧
    isSnapshotName (temporaryFor (snapshotPathFor n)) = true ∧
      isLogName (snapshotPathFor n) = false ∧ isLogName (temporaryFor (snapshotPathFor n)) = false :=
  ⟨rfl, rfl, rfl, rfl⟩

theorem isLogName_walPathFor (n : UInt64) : isLogName (walPathFor n) = true ∧
    isLogName (temporaryFor (walPathFor n)) = true ∧
      isSnapshotName (walPathFor n) = false ∧ isSnapshotName (temporaryFor (walPathFor n)) = false :=
  ⟨rfl, rfl, rfl, rfl⟩

/-- What a cleanup leaves of the snapshots. -/
theorem listing_snapshots_of_cleanup {store : FileStore} {u : Unit} {steps : List FileStep}
    (h : FileStore.cleanupOldFiles env store dir = (.ok u, steps)) :
    (run dir steps).listing isSnapshotName =
      (dir.listing isSnapshotName).filter (· ∉ (victims store dir).map snapshotPathFor) := by
  have hother : ∀ dir' : StoreDir,
      (run dir' (((oldLogs store dir).map walPathFor).map .remove)).listing isSnapshotName =
        dir'.listing isSnapshotName := by
    refine fun dir' => listing_run dir' fun step hstep name hname => ?_
    obtain ⟨path, hpath, rfl⟩ := List.mem_map.mp hstep
    obtain ⟨n, -, rfl⟩ := List.mem_map.mp hpath
    obtain rfl := List.mem_singleton.mp hname
    exact (isLogName_walPathFor n).2.2.1
  rw [cleanupOldFiles_of_ok h, run_append, hother, listing_removes]
  exact List.filter_congr fun name _ => decide_eq_decide.mpr Iff.rfl

/-- What a cleanup leaves of the log segments. -/
theorem listing_logs_of_cleanup {store : FileStore} {u : Unit} {steps : List FileStep}
    (h : FileStore.cleanupOldFiles env store dir = (.ok u, steps)) :
    (run dir steps).listing isLogName =
      (dir.listing isLogName).filter (· ∉ (oldLogs store dir).map walPathFor) := by
  have hfirst : (run dir (((victims store dir).map snapshotPathFor).map .remove)).listing isLogName =
      dir.listing isLogName := by
    refine listing_run dir fun step hstep name hname => ?_
    obtain ⟨path, hpath, rfl⟩ := List.mem_map.mp hstep
    obtain ⟨n, -, rfl⟩ := List.mem_map.mp hpath
    obtain rfl := List.mem_singleton.mp hname
    exact (isSnapshotName_snapshotPathFor n).2.2.1
  rw [cleanupOldFiles_of_ok h, run_append, listing_removes, hfirst]
  exact List.filter_congr fun name _ => decide_eq_decide.mpr Iff.rfl

/-- A log segment is removed when its number is read back and is before the active one. -/
theorem mem_oldLogs {store : FileStore} {n : UInt64} :
    n ∈ oldLogs store dir ↔
      (∃ name ∈ dir.listing isLogName, FileStore.fileNumber (bytesOf "wal-") name = some n) ∧
        n < store.wal_segment := by
  unfold oldLogs
  rw [List.mem_filter, (fileNumbers_perm _ _).mem_iff, List.mem_filterMap, decide_eq_true_eq]
  rfl

/-- The active log segment is not removed. -/
theorem active_not_old (store : FileStore) (dir : StoreDir) :
    walPathFor store.wal_segment ∉ (oldLogs store dir).map walPathFor := by
  intro hmem
  obtain ⟨n, hn, heq⟩ := List.mem_map.mp hmem
  rw [walPathFor_injective heq] at hn
  exact absurd (mem_oldLogs.mp hn).2 (UInt64.lt_irrefl _)

/-- A cleanup keeps the newest snapshots within the bound and the active log segment. -/
theorem cleanup_lists {store : FileStore} {removed last : ℕ} (hle : removed ≤ last)
    (hpositive : 0 < last → removed < last) (hlast : last < 10)
    (hactive : store.snapshot_sequence = UInt64.ofNat last)
    (hsegment : store.wal_segment = UInt64.ofNat (last + 1))
    (hretained : 1 ≤ store.options.retained_snapshots)
    (hsnapshots : (dir.listing isSnapshotName).Perm (snapshotNames (removed + 1) (last - removed)))
    (hlogs : dir.listing isLogName = [walPathFor (UInt64.ofNat (last + 1))] ∨
      dir.listing isLogName =
        [walPathFor (UInt64.ofNat (last + 1)), walPathFor (UInt64.ofNat last)])
    {u : Unit} {steps : List FileStep}
    (h : FileStore.cleanupOldFiles env store dir = (.ok u, steps)) :
    Lists (run dir steps) (max removed (last - store.options.retained_snapshots)) last := by
  obtain ⟨count, hcount⟩ : ∃ count, count = last - removed - store.options.retained_snapshots :=
    ⟨_, rfl⟩
  have hmax : max removed (last - store.options.retained_snapshots) = removed + count := by omega
  have hvictims := victims_eq hle hlast hactive hretained hsnapshots
  rw [hmax]
  refine ⟨?_, ?_, by omega, by omega⟩
  -- the victims are the oldest snapshots, so what is listed falls into those and the rest
  · have hsplit : snapshotNames (removed + 1) (last - removed) =
        snapshotNames (removed + 1) count ++
          snapshotNames (removed + count + 1) (last - (removed + count)) := by
      rw [show last - removed = count + (last - (removed + count)) by omega, snapshotNames_append,
        show removed + 1 + count = removed + count + 1 by omega]
    have hnames : (victims store dir).map snapshotPathFor = snapshotNames (removed + 1) count := by
      rw [hvictims, hcount, List.map_map]
      rfl
    have hold : (snapshotNames (removed + 1) count).filter
        (· ∉ snapshotNames (removed + 1) count) = [] := by
      rw [List.filter_eq_nil_iff]
      intro name hname
      simp [hname]
    have hnew : (snapshotNames (removed + count + 1) (last - (removed + count))).filter
        (· ∉ snapshotNames (removed + 1) count) =
          snapshotNames (removed + count + 1) (last - (removed + count)) := by
      rw [List.filter_eq_self]
      intro name hname
      obtain ⟨n, hn, rfl⟩ := List.mem_map.mp hname
      have hmem := List.mem_range'_1.mp hn
      rw [decide_eq_true_eq, mem_snapshotNames (by omega) (by omega)]
      omega
    rw [listing_snapshots_of_cleanup h, hnames]
    refine (hsnapshots.filter _).trans (List.Perm.of_eq ?_)
    rw [hsplit, List.filter_append, hold, hnew, List.nil_append]
  · have hkept := active_not_old store dir
    rw [hsegment] at hkept
    rw [listing_logs_of_cleanup h]
    -- after a snapshot the segment before the active one is still there, and it is older
    rcases hlogs with hone | htwo
    · rw [hone, List.filter_cons, if_pos (decide_eq_true hkept), List.filter_nil]
    · have hremoved : walPathFor (UInt64.ofNat last) ∈ (oldLogs store dir).map walPathFor := by
        refine List.mem_map_of_mem (mem_oldLogs.mpr ⟨?_, ?_⟩)
        · rw [htwo]
          exact ⟨_, by simp, (fileNumber_small last hlast).2⟩
        · rw [hsegment]
          refine UInt64.lt_of_le_of_ne (ofNat_le (Nat.le_succ last) (by omega)) fun heq => ?_
          have hsame := ofNat_inj (by omega) (by omega) heq
          omega
      rw [htwo, List.filter_cons, if_pos (decide_eq_true hkept), List.filter_cons,
        if_neg (by simpa using hremoved), List.filter_nil]

/-! ## Opening -/

/-- A replay that succeeds may write the log segment anew, and does nothing else. -/
theorem replayLog_of_ok {options : StoreOptions} {path : Bytes} {sequence : Sequence}
    {found : DurableStore.Scan × ℕ} {steps : List FileStep}
    (h : FileStore.replayLog env options path sequence dir = (.ok found, steps)) :
    steps = [] ∨ ∃ bytes, steps = atomicSteps path bytes := by
  unfold FileStore.replayLog fileExists at h
  rw [look_pure_bind] at h
  split at h
  · obtain ⟨raw, -, h⟩ := of_look_bind_ok h
    obtain ⟨⟨remaining, scan⟩, -, h⟩ := of_look_bind_ok h
    simp only at h
    split at h
    · exact Or.inl (Prod.mk.inj h).2.symm
    · obtain ⟨_, -, h⟩ := of_look_bind_ok h
      obtain ⟨_, first, later, hwrite, hreturn, rfl⟩ := of_bind_ok h
      obtain ⟨-, rfl⟩ := Prod.mk.inj hreturn
      exact Or.inr ⟨_, by rw [writeFileAtomic_of_ok hwrite, List.append_nil]⟩
  · obtain ⟨_, first, later, hwrite, hreturn, rfl⟩ := of_bind_ok h
    obtain ⟨-, rfl⟩ := Prod.mk.inj hreturn
    exact Or.inr ⟨_, by rw [writeFileAtomic_of_ok hwrite, List.append_nil]⟩

/-- An open that succeeds with a pointer replays the log segment and cleans up. -/
theorem openLocked_of_ok {options : StoreOptions} {pointer : CurrentPointer}
    (hcurrent : dir.read currentPath = some (encodeCurrent pointer)) (hsegment : pointer.wal ≠ 0)
    {opened : FileStore × FileRecovery} {steps : List FileStep}
    (h : FileStore.openLocked env options dir = (.ok opened, steps)) :
    opened.1.options = options ∧
      pointer = ⟨opened.1.snapshot_sequence, opened.1.wal_segment⟩ ∧ ∃ replayed cleaned,
        (replayed = [] ∨ ∃ bytes, replayed = atomicSteps (walPathFor pointer.wal) bytes) ∧
          FileStore.cleanupOldFiles env opened.1 (run dir replayed) = (.ok (), cleaned) ∧
            steps = replayed ++ cleaned := by
  unfold FileStore.openLocked fileExists at h
  rw [look_pure_bind, hcurrent, Option.isSome_some, if_pos rfl,
    look_bind (readPointer hcurrent hsegment)] at h
  obtain ⟨⟨sequence, snapshot_payload⟩, -, h⟩ := of_look_bind_ok h
  simp only at h
  obtain ⟨⟨scan, torn_tail_bytes⟩, replayed, rest, hreplay, hrest, rfl⟩ := of_bind_ok h
  obtain ⟨_, cleaned, last, hcleanup, hreturn, rfl⟩ := of_bind_ok hrest
  obtain ⟨hopened, rfl⟩ := Prod.mk.inj hreturn
  obtain rfl := Except.ok.inj hopened
  exact ⟨rfl, rfl, replayed, cleaned, replayLog_of_ok hreplay, hcleanup, by rw [List.append_nil]⟩

/-- An open that succeeds has its bound in range. -/
theorem open_range_of_ok {options : StoreOptions} {opened : FileStore × FileRecovery}
    {steps : List FileStep} (h : FileStore.open_ env options dir = (.ok opened, steps)) :
    1 ≤ options.retained_snapshots := by
  by_contra hrange
  obtain ⟨status, hidle⟩ := @open_idle dir env options fun hacquires => hrange hacquires.1.1
  rw [hidle] at h
  exact absurd (Prod.mk.inj h).1 (by simp)

/-! ## The invariant -/

/-- What is listed, what the pointer says, and what a live process knows of it. -/
structure RetentionInv (sys : StoreSystem) (removed last : ℕ) : Prop where
  lists : Lists sys.dir removed last
  small : last < 10
  current : sys.dir.read currentPath =
    some (encodeCurrent ⟨UInt64.ofNat last, UInt64.ofNat (last + 1)⟩)
  live : ∀ store ∈ sys.store, store.snapshot_sequence = UInt64.ofNat last ∧
    store.wal_segment = UInt64.ofNat (last + 1) ∧ 1 ≤ store.options.retained_snapshots ∧
      last - removed ≤ store.options.retained_snapshots

variable {sys : StoreSystem} {removed last : ℕ}

/-- The files of a live store are within the bound. -/
theorem RetentionInv.retained (h : RetentionInv sys removed last) :
    ∀ store ∈ sys.store, Retained store sys.dir := by
  intro store hstore
  obtain ⟨hactive, hsegment, -, hbound⟩ := h.live store hstore
  have hsmall := h.small
  have hle := h.lists.removed_le
  have hlt := h.lists.removed_lt
  have hnat : store.snapshot_sequence.toNat = last := by
    rw [hactive, UInt64.toNat_ofNat_of_lt' (lt_trans hsmall (by decide))]
  refine ⟨⟨last - removed, hbound, by omega, fun hne => ?_, ?_⟩, ?_⟩
  · have hpositive : last ≠ 0 := fun hzero => hne (by rw [hactive, hzero]; rfl)
    omega
  · rw [hnat, show last + 1 - (last - removed) = removed + 1 by omega]
    exact h.lists.snapshots
  · rw [hsegment]
    exact h.lists.logs

/-- Steps on other files leave what is listed. -/
theorem Lists.run_other (h : Lists dir removed last) {steps : List FileStep}
    (hother : ∀ step ∈ steps, ∀ name ∈ step.touches,
      isSnapshotName name = false ∧ isLogName name = false) :
    Lists (run dir steps) removed last := by
  refine ⟨?_, ?_, h.removed_le, h.removed_lt⟩
  · rw [listing_run dir fun step hstep name hname => (hother step hstep name hname).1]
    exact h.snapshots
  · rw [listing_run dir fun step hstep name hname => (hother step hstep name hname).2]
    exact h.logs

/-- The log segment may be written anew. -/
theorem Lists.rewritten (h : Lists dir removed last) (bytes : Bytes) :
    Lists (run dir (atomicSteps (walPathFor (UInt64.ofNat (last + 1))) bytes)) removed last := by
  obtain ⟨hlog, -, hsnapshot, htemporary⟩ := isLogName_walPathFor (UInt64.ofNat (last + 1))
  refine ⟨?_, ?_, h.removed_le, h.removed_lt⟩
  · rw [listing_atomicSteps_other dir bytes hsnapshot htemporary]
    exact h.snapshots
  · rw [listing_atomicSteps, hlog, h.logs]
    simp

/-- The log segment may be appended to. -/
theorem Lists.appended (h : Lists dir removed last) (bytes : Bytes) :
    Lists (run dir [.append (walPathFor (UInt64.ofNat (last + 1))) bytes]) removed last := by
  obtain ⟨hlog, -, hsnapshot, -⟩ := isLogName_walPathFor (UInt64.ofNat (last + 1))
  simp only [run_cons, run_nil, Step.run]
  refine ⟨?_, ?_, h.removed_le, h.removed_lt⟩
  · rw [Dir.listing_write, hsnapshot, Dir.listing_filter_ne dir hsnapshot]
    exact h.snapshots
  · rw [Dir.listing_write, hlog, h.logs]
    simp

/-- The lock is no file of these kinds. -/
theorem lock_not_listed {name : Bytes} (h : name ∈ [lockPath, temporaryFor lockPath]) :
    isSnapshotName name = false ∧ isLogName name = false := by
  simp only [List.mem_cons, List.not_mem_nil, or_false] at h
  rcases h with rfl | rfl
  · decide
  · decide

/-- Opening a closed store keeps the invariant. -/
theorem RetentionInv.next_open (h : RetentionInv sys removed last) (hstore : sys.store = none)
    {options : StoreOptions} (hok : (sys.reply (.open_ env options)).isOk) :
    ∃ removed, RetentionInv (sys.next (.call (.open_ env options))) removed last := by
  cases hopen : FileStore.open_ env options sys.dir with
  | mk outcome steps =>
    cases outcome with
    | error status =>
      simp [StoreSystem.reply, StoreSystem.perform, hstore, hopen, Except.isOk, Except.toBool] at hok
    | ok opened =>
      obtain ⟨store, recovery⟩ := opened
      have hperform : sys.perform (.open_ env options) =
          (.ok (.opened recovery), some store, steps) := by
        simp only [StoreSystem.perform, hstore, hopen]
      have hretained := open_range_of_ok hopen
      -- the lock is no file that is listed
      obtain ⟨before, later, hacquire, hunder, rfl⟩ := open_of_ok hopen
      have htouches := touchesOnly_acquireLock env sys.dir
      rw [hacquire] at htouches
      have hlists := h.lists.run_other fun step hstep name hname =>
        lock_not_listed (htouches step hstep name hname)
      have hcurrent := (read_run sys.dir
        (spares_of_acquireLock hacquire ⟨0, 1⟩ currentPath (by simp [activePaths]))).trans h.current
      have hsegment : UInt64.ofNat (last + 1) ≠ 0 := by
        intro hzero
        have hsmall := h.small
        exact absurd (@ofNat_inj (last + 1) 0 (by omega) (by omega) hzero) (Nat.succ_ne_zero last)
      obtain ⟨rfl, hpointer, replayed, cleaned, hreplayed, hcleanup, rfl⟩ :=
        openLocked_of_ok hcurrent hsegment hunder
      obtain ⟨hactive, hwal⟩ := CurrentPointer.mk.inj hpointer
      obtain ⟨hlisted, hread⟩ : Lists (run (run sys.dir before) replayed) removed last ∧
          (run (run sys.dir before) replayed).read currentPath =
            some (encodeCurrent ⟨UInt64.ofNat last, UInt64.ofNat (last + 1)⟩) := by
        -- a torn log is written again under its own name
        rcases hreplayed with rfl | ⟨bytes, rfl⟩
        · exact ⟨hlists, hcurrent⟩
        · refine ⟨hlists.rewritten bytes, (read_run _ ?_).trans hcurrent⟩
          exact avoids_atomicSteps _ (ne_of_length (by simp)) (ne_of_length (by simp))
      have hspares := spares_of_only (spares_cleanupOldFiles env store)
        (run (run sys.dir before) replayed)
      rw [hcleanup] at hspares
      have hcleaned := cleanup_lists hlisted.removed_le hlisted.removed_lt h.small hactive.symm
        hwal.symm hretained hlisted.snapshots (Or.inl hlisted.logs) hcleanup
      rw [StoreSystem.next_call_eq hperform, run_append, run_append]
      refine ⟨_, hcleaned, h.small, ?_, fun store' hstore' => ?_⟩
      · exact (read_run _ (hspares currentPath (by simp [activePaths]))).trans hread
      · obtain rfl := Option.some.inj hstore'
        refine ⟨hactive.symm, hwal.symm, hretained, ?_⟩
        show last - max removed (last - store.options.retained_snapshots) ≤ _
        omega

/-- The first open lists an empty log segment. -/
theorem retention_first_open {options : StoreOptions}
    (hok : (StoreSystem.reply {} (.open_ env options)).isOk) :
    RetentionInv (.initialized env options) 0 0 := by
  have hinv := initialized_holds hok
  cases hopen : FileStore.open_ env options [] with
  | mk outcome steps =>
    cases outcome with
    | error status =>
      simp [StoreSystem.reply, StoreSystem.perform, hopen, Except.isOk, Except.toBool] at hok
    | ok opened =>
      obtain ⟨store, recovery⟩ := opened
      have hperform : StoreSystem.perform {} (.open_ env options) =
          (.ok (.opened recovery), some store, steps) := by
        simp only [StoreSystem.perform, hopen]
      have hretained := open_range_of_ok hopen
      obtain ⟨before, later, hacquire, hunder, rfl⟩ := open_of_ok hopen
      have htouches := touchesOnly_acquireLock env []
      rw [hacquire] at htouches
      have hlisted : ∀ {p : Bytes → Bool}, (∀ name ∈ [lockPath, temporaryFor lockPath], p name = false) →
          (run [] before).listing p = [] :=
        fun hp => listing_run [] fun step hstep name hname => hp name (htouches step hstep name hname)
      have hnone : (run [] before).read currentPath = none := read_run []
        (spares_of_acquireLock hacquire ⟨0, 1⟩ currentPath (by simp [activePaths]))
      -- without a current pointer the open lays out the first segment
      obtain ⟨rfl, hstore⟩ := openLocked_fresh_of_ok hnone hunder
      have hstore : store = ⟨options, 0, 1, 0⟩ := hstore
      obtain ⟨hlog, -, hsnapshot, htemporary⟩ := isLogName_walPathFor 1
      rw [StoreSystem.initialized, StoreSystem.next_call_eq hperform] at hinv ⊢
      refine ⟨⟨?_, ?_, le_rfl, fun hlt => hlt⟩, by decide, hinv.holds.current, fun store' hstore' => ?_⟩
      · show List.Perm (Dir.listing _ (run [] (before ++ _))) []
        rw [run_append, run_append, listing_atomicSteps_other _ _ (by decide) (by decide),
          listing_atomicSteps_other _ _ hsnapshot htemporary,
          hlisted fun name hname => (lock_not_listed hname).1]
      · show Dir.listing _ (run [] (before ++ _)) = [walPathFor 1]
        rw [run_append, run_append, listing_atomicSteps_other _ _ (by decide) (by decide),
          listing_atomicSteps, hlisted fun name hname => (lock_not_listed hname).2, hlog]
        rfl
      · obtain rfl := Option.some.inj hstore'
        subst hstore
        exact ⟨rfl, rfl, hretained, Nat.zero_le _⟩

/-- A commit keeps the invariant. -/
theorem RetentionInv.next_commit (h : RetentionInv sys removed last) (type : RecordType)
    (payload : Bytes) :
    RetentionInv (sys.next (.call (.commit env type payload))) removed last := by
  cases hstore : sys.store with
  | none =>
    have hperform : sys.perform (.commit env type payload) =
        (fail .notFound "no store is open", none, []) := by
      simp only [StoreSystem.perform, hstore]
    rw [StoreSystem.next_call_eq hperform, run_nil]
    exact ⟨h.lists, h.small, h.current, fun _ hstore => absurd hstore (by simp)⟩
  | some store =>
    obtain ⟨hactive, hwal, hretained, hbound⟩ := h.live store hstore
    -- the sequence is no part of the invariant
    have hidle : ∀ last_sequence : Sequence,
        RetentionInv ⟨sys.dir, some { store with last_sequence := last_sequence }⟩ removed last := by
      refine fun last_sequence => ⟨h.lists, h.small, h.current, fun store' hstore' => ?_⟩
      obtain rfl := Option.some.inj hstore'
      exact ⟨hactive, hwal, hretained, hbound⟩
    -- neither is what the active log segment holds
    have happended : ∀ (last_sequence : Sequence) (bytes : Bytes),
        RetentionInv ⟨run sys.dir [.append (walPathFor store.wal_segment) bytes],
          some { store with last_sequence := last_sequence }⟩ removed last := by
      refine fun last_sequence bytes => ⟨?_, h.small, ?_, (hidle last_sequence).live⟩
      · rw [hwal]
        exact h.lists.appended bytes
      · rw [read_append, if_neg (ne_of_length (by simp))]
        exact h.current
    obtain ⟨frame, hframe⟩ : ∃ frame : Frame, frame = ⟨type, store.last_sequence + 1, payload⟩ :=
      ⟨_, rfl⟩
    rcases @commit_cases env store type payload frame hframe sys.dir with
      ⟨⟨status, hcommit⟩, -⟩ | ⟨-, -, hcommit⟩
    · have hperform : sys.perform (.commit env type payload) = (.error status, some store, []) := by
        simp only [StoreSystem.perform, hstore, hcommit]
      rw [StoreSystem.next_call_eq hperform]
      exact hidle store.last_sequence
    -- a short append stays in the file and does not move the sequence
    · cases hfault : env.faults.lookup (.append (walPathFor store.wal_segment) frame.encode) with
      | none =>
        rw [hfault] at hcommit
        have hperform : sys.perform (.commit env type payload) = (.ok .done,
            some { store with last_sequence := store.last_sequence + 1 },
              [.append (walPathFor store.wal_segment) frame.encode]) := by
          simp only [StoreSystem.perform, hstore, hcommit]
        rw [StoreSystem.next_call_eq hperform]
        exact happended _ _
      | some written =>
        rw [hfault] at hcommit
        have hperform : sys.perform (.commit env type payload) = (fail .ioError "short append",
            some store, [.append (walPathFor store.wal_segment) (frame.encode.take written)]) := by
          simp only [StoreSystem.perform, hstore, hcommit, fail]
        rw [StoreSystem.next_call_eq hperform]
        exact happended store.last_sequence _

/-- What is listed once a snapshot is published: its file, and both log segments. -/
theorem Lists.published (h : Lists dir removed last) (hsmall : last < 10) (sequence : Sequence)
    (payload : Bytes) :
    ((run dir (publishSteps ⟨UInt64.ofNat last, UInt64.ofNat (last + 1)⟩ sequence payload)).listing
        isSnapshotName).Perm (snapshotNames (removed + 1) (last + 1 - removed)) ∧
      (run dir (publishSteps ⟨UInt64.ofNat last, UInt64.ofNat (last + 1)⟩ sequence payload)).listing
        isLogName = [walPathFor (UInt64.ofNat (last + 1 + 1)), walPathFor (UInt64.ofNat (last + 1))] := by
  have hsucc : ∀ n, UInt64.ofNat n + 1 = UInt64.ofNat (n + 1) := fun n => by
    rw [UInt64.ofNat_add, UInt64.ofNat_one]
  have hle := h.removed_le
  obtain ⟨hsnapshot, -, hlog, hlog_temporary⟩ :=
    isSnapshotName_snapshotPathFor (UInt64.ofNat (last + 1))
  obtain ⟨hlog', -, hsnapshot', hsnapshot_temporary⟩ :=
    isLogName_walPathFor (UInt64.ofNat (last + 1 + 1))
  unfold publishSteps
  simp only [hsucc]
  rw [run_append, run_append]
  constructor
  · rw [listing_atomicSteps_other _ _ (by decide) (by decide),
      listing_atomicSteps_other _ _ hsnapshot' hsnapshot_temporary, listing_atomicSteps, hsnapshot]
    -- the snapshot is a new one, so its name displaces none
    have hnew : ((dir.listing isSnapshotName).filter
        (· ≠ temporaryFor (snapshotPathFor (UInt64.ofNat (last + 1))))).filter
          (· ≠ snapshotPathFor (UInt64.ofNat (last + 1))) = dir.listing isSnapshotName := by
      rw [List.filter_filter, List.filter_eq_self]
      intro name hname
      have hmem := h.snapshots.mem_iff.mp hname
      have hother : name ≠ snapshotPathFor (UInt64.ofNat (last + 1)) := by
        rintro rfl
        rw [mem_snapshotNames (by omega) (by omega)] at hmem
        omega
      have hfinal : name ≠ temporaryFor (snapshotPathFor (UInt64.ofNat (last + 1))) := by
        obtain ⟨n, -, rfl⟩ := List.mem_map.mp hmem
        exact ne_of_length (by simp)
      rw [decide_eq_true hother, decide_eq_true hfinal]
      rfl
    have hnames : snapshotNames (removed + 1) (last + 1 - removed) =
        snapshotNames (removed + 1) (last - removed) ++
          [snapshotPathFor (UInt64.ofNat (last + 1))] := by
      rw [show last + 1 - removed = last - removed + 1 by omega, snapshotNames_append,
        show removed + 1 + (last - removed) = last + 1 by omega]
      rfl
    rw [hnew, hnames]
    exact (h.snapshots.append_left _).trans List.perm_append_comm
  · have hother : walPathFor (UInt64.ofNat (last + 1)) ≠ walPathFor (UInt64.ofNat (last + 1 + 1)) := by
      intro heq
      have hsame := ofNat_inj (by omega) (by omega) (walPathFor_injective heq)
      omega
    have hfinal : walPathFor (UInt64.ofNat (last + 1)) ≠
        temporaryFor (walPathFor (UInt64.ofNat (last + 1 + 1))) := ne_of_length (by simp)
    rw [listing_atomicSteps_other _ _ (by decide) (by decide), listing_atomicSteps, hlog',
      listing_atomicSteps_other _ _ hlog hlog_temporary, h.logs, List.filter_cons,
      if_pos (decide_eq_true hfinal), List.filter_nil, List.filter_cons,
      if_pos (decide_eq_true hother), List.filter_nil]
    rfl

/-- What a snapshot does that is written: it is published, and what is old is removed. -/
theorem RetentionInv.written (h : RetentionInv sys removed last) {payload : Bytes}
    (hok : (sys.reply (.writeSnapshot env payload)).isOk) :
    ∃ store store' before after, sys.store = some store ∧ store'.options = store.options ∧
      store'.snapshot_sequence = UInt64.ofNat (last + 1) ∧
        store'.wal_segment = UInt64.ofNat (last + 1 + 1) ∧
      before = publishSteps ⟨UInt64.ofNat last, UInt64.ofNat (last + 1)⟩ store.last_sequence payload ∧
        FileStore.cleanupOldFiles env store' (run sys.dir before) = (.ok (), after) ∧
          sys.next (.call (.writeSnapshot env payload)) =
            ⟨run (run sys.dir before) after, some store'⟩ := by
  have hsucc : ∀ n, UInt64.ofNat n + 1 = UInt64.ofNat (n + 1) := fun n => by
    rw [UInt64.ofNat_add, UInt64.ofNat_one]
  cases hstore : sys.store with
  | none =>
    simp [StoreSystem.reply, StoreSystem.perform, hstore, fail, Except.isOk, Except.toBool] at hok
  | some store =>
    obtain ⟨hactive, hwal, -, -⟩ := h.live store hstore
    cases hwrite : store.writeSnapshot env payload sys.dir with
    | mk outcome taken =>
      cases outcome with
      | error status =>
        simp [StoreSystem.reply, StoreSystem.perform, hstore, hwrite, Except.isOk,
          Except.toBool] at hok
      | ok written =>
        obtain ⟨cleaned, store'⟩ := written
        have hperform : sys.perform (.writeSnapshot env payload) =
            (cleaned.map fun _ => .done, some store', taken) := by
          simp only [StoreSystem.perform, hstore, hwrite]
        -- a cleanup that fails is the answer of the call, so the call was not accepted
        cases cleaned with
        | error status =>
          rw [StoreSystem.reply_eq hperform] at hok
          simp [Except.map, Except.isOk, Except.toBool] at hok
        | ok u =>
          obtain ⟨-, hstore', before, after, hbefore, hcleanup, rfl⟩ :=
            writeSnapshot_cleaned_of_ok hwrite
          rw [hactive, hwal] at hbefore
          rw [hactive, hwal, hsucc, hsucc] at hstore'
          refine ⟨store, store', before, after, rfl, by rw [hstore'], by rw [hstore'],
            by rw [hstore'], hbefore, hcleanup, ?_⟩
          rw [StoreSystem.next_call_eq hperform, run_append]

/-- Up to the ninth, a snapshot that is written keeps the invariant. -/
theorem RetentionInv.next_writeSnapshot (h : RetentionInv sys removed last) (hfew : last < 9)
    {payload : Bytes} (hok : (sys.reply (.writeSnapshot env payload)).isOk) :
    ∃ removed, RetentionInv (sys.next (.call (.writeSnapshot env payload))) removed (last + 1) := by
  obtain ⟨store, store', before, after, hstore, hoptions, hactive, hwal, hbefore, hcleanup, hnext⟩ :=
    h.written hok
  obtain ⟨-, -, hretained, -⟩ := h.live store hstore
  rw [← hoptions] at hretained
  obtain ⟨hsnapshots, hlogs⟩ := h.lists.published h.small store.last_sequence payload
  have hle := h.lists.removed_le
  rw [← hbefore] at hsnapshots hlogs
  have hcleaned := cleanup_lists (show removed ≤ last + 1 by omega) (fun _ => by omega) (by omega)
    hactive hwal hretained hsnapshots (Or.inr hlogs) hcleanup
  have hspares := spares_of_only (spares_cleanupOldFiles env store') (run sys.dir before)
  rw [hcleanup] at hspares
  rw [hnext]
  refine ⟨_, hcleaned, by omega, ?_, fun store'' hstore'' => ?_⟩
  · have hsucc : ∀ n, UInt64.ofNat n + 1 = UInt64.ofNat (n + 1) := fun n => by
      rw [UInt64.ofNat_add, UInt64.ofNat_one]
    refine (read_run _ (hspares currentPath (by simp [activePaths]))).trans ?_
    rw [hbefore, publishSteps, run_append, run_append, read_atomicSteps]
    simp only [hsucc]
  · obtain rfl := Option.some.inj hstore''
    refine ⟨hactive, hwal, hretained, ?_⟩
    omega

/-- The tenth snapshot leaves the log segment of number ten behind. -/
theorem RetentionInv.not_retained_tenth (h : RetentionInv sys removed 9) {payload : Bytes}
    (hok : (sys.reply (.writeSnapshot env payload)).isOk) :
    ¬ RetentionKept sys (.call (.writeSnapshot env payload)) := by
  obtain ⟨store, store', before, after, -, -, -, -, hbefore, hcleanup, hnext⟩ := h.written hok
  obtain ⟨-, hlogs⟩ := h.lists.published h.small store.last_sequence payload
  rw [← hbefore] at hlogs
  have huse : sys.use (.call (.writeSnapshot env payload)) =
      ⟨run (run sys.dir before) after, some store'⟩ := hnext
  intro hkept
  unfold RetentionKept at hkept
  rw [huse] at hkept
  obtain ⟨-, hone⟩ := hkept store' rfl
  -- the tenth name is read as no number and the eleventh is the active one
  have hold : oldLogs store' (run sys.dir before) = [] := by
    rw [List.eq_nil_iff_forall_not_mem]
    intro n hn
    obtain ⟨⟨name, hname, hnumber⟩, -⟩ := mem_oldLogs.mp hn
    rw [hlogs] at hname
    obtain ⟨hten, heleven⟩ := fileNumber_ten
    simp only [List.mem_cons, List.not_mem_nil, or_false] at hname
    rcases hname with rfl | rfl
    · exact absurd (heleven.symm.trans hnumber) (by simp)
    · exact absurd (hten.symm.trans hnumber) (by simp)
  have hlisted := listing_logs_of_cleanup hcleanup
  rw [hold, hlogs] at hlisted
  have hlength := congrArg List.length (hlisted.symm.trans hone)
  simp at hlength

/-! ## Runs -/

/-- A store that nobody has opened yet, or the invariant. -/
def RetentionState (sys : StoreSystem) : Prop :=
  sys = {} ∨ ∃ removed last, RetentionInv sys removed last

/-- Where nobody has opened the store yet, a use that succeeds opens it or does nothing. -/
theorem retention_unused {use : StoreUse} (hassumed : UseAssumed {} use) :
    FewSnapshots {} use ∧ RetentionState (StoreSystem.use {} use) ∧ RetentionKept {} use := by
  have hempty : StoreSystem.use {} use = {} → RetentionState (StoreSystem.use {} use) ∧
      RetentionKept {} use := by
    intro huse
    unfold RetentionKept
    rw [huse]
    exact ⟨Or.inl rfl, fun _ hstore => absurd hstore (by simp)⟩
  cases use with
  | close env => exact ⟨trivial, hempty rfl⟩
  | stop => exact ⟨trivial, hempty rfl⟩
  | call call =>
    cases call with
    | open_ env options =>
      have hinv := retention_first_open (hassumed rfl)
      exact ⟨trivial, Or.inr ⟨0, 0, hinv⟩, hinv.retained⟩
    | commit env type payload => exact ⟨trivial, hempty rfl⟩
    | writeSnapshot env payload =>
      exact absurd hassumed (by simp [UseAssumed, StoreSystem.reply, StoreSystem.perform, fail,
        Except.isOk, Except.toBool])

/-- Every use of a store that is as assumed keeps the files within the bound, unless it writes a tenth
snapshot. -/
theorem RetentionInv.use (h : RetentionInv sys removed last) {use : StoreUse}
    (hassumed : UseAssumed sys use) :
    (FewSnapshots sys use ∧ ∃ removed last, RetentionInv (sys.use use) removed last) ∨
      (¬ FewSnapshots sys use ∧ ¬ RetentionKept sys use) := by
  cases use with
  | stop =>
    exact Or.inl ⟨trivial, removed, last, h.lists, h.small, h.current, fun _ hstore =>
      absurd hstore (by simp [StoreSystem.use])⟩
  | close env =>
    refine Or.inl ⟨trivial, removed, last, ?_⟩
    unfold StoreSystem.use
    cases hstore : sys.store with
    | none => exact h
    | some store =>
      have htouches : TouchesOnly [lockPath, temporaryFor lockPath]
          (attempt env.faults (.remove lockPath) : FileOp Bool) :=
        touchesOnly_attempt _ (by simp [Step.touches])
      refine ⟨h.lists.run_other fun step hstep name hname =>
        lock_not_listed (htouches sys.dir step hstep name hname), h.small, ?_,
          fun _ hstore => absurd hstore (by simp)⟩
      refine (read_run sys.dir fun step hstep hname => ?_).trans h.current
      exact absurd (htouches sys.dir step hstep currentPath hname) (by decide)
  | call call =>
    cases call with
    | open_ env options =>
      refine Or.inl ⟨trivial, ?_⟩
      cases hstore : sys.store with
      | none =>
        obtain ⟨removed', hinv⟩ := h.next_open hstore (hassumed hstore)
        exact ⟨removed', last, hinv⟩
      | some store =>
        have huse : sys.use (.call (.open_ env options)) = sys := by
          show sys.next (.call (.open_ env options)) = sys
          rw [StoreSystem.next_call_eq (@perform_open_live sys env options store hstore), run_nil,
            ← hstore]
        rw [huse]
        exact ⟨removed, last, h⟩
    | commit env type payload => exact Or.inl ⟨trivial, removed, last, h.next_commit type payload⟩
    | writeSnapshot env payload =>
      have hsmall := h.small
      have hfew : FewSnapshots sys (.call (.writeSnapshot env payload)) ↔ last < 9 := by
        obtain ⟨store, _, _, _, hstore, -⟩ := h.written hassumed
        have hnat : (UInt64.ofNat last).toNat = last :=
          UInt64.toNat_ofNat_of_lt' (lt_trans hsmall (by decide))
        simp only [FewSnapshots, hstore, Option.mem_def, Option.some.injEq, forall_eq',
          (h.live store hstore).1, UInt64.lt_iff_toNat_lt, hnat, UInt64.reduceToNat]
      by_cases hlast : last < 9
      · obtain ⟨removed', hinv⟩ := h.next_writeSnapshot hlast hassumed
        exact Or.inl ⟨hfew.mpr hlast, removed', last + 1, hinv⟩
      · obtain rfl : last = 9 := by omega
        exact Or.inr ⟨fun hall => hlast (hfew.mp hall), h.not_retained_tenth hassumed⟩

/-- Over a run, the files of the live store are within the bound after every use exactly when no tenth
snapshot is written. -/
theorem RetentionState.along (hstate : RetentionState sys) {uses : List StoreUse}
    (h : Runs.Along StoreSystem.use UseAssumed sys uses) :
    Runs.Along StoreSystem.use RetentionKept sys uses ↔
      Runs.Along StoreSystem.use FewSnapshots sys uses := by
  induction uses generalizing sys with
  | nil => exact Iff.rfl
  | cons use uses ih =>
    obtain ⟨hassumed, hrest⟩ := h
    rcases hstate with rfl | ⟨removed, last, hinv⟩
    · obtain ⟨hfew, hnext, hkept⟩ := retention_unused hassumed
      exact and_congr (iff_of_true hkept hfew) (ih hnext hrest)
    · rcases hinv.use hassumed with ⟨hfew, removed', last', hnext⟩ | ⟨hmany, hlost⟩
      · exact and_congr (iff_of_true hnext.retained hfew) (ih (Or.inr ⟨_, _, hnext⟩) hrest)
      · exact iff_of_false (fun hkept => hlost hkept.1) (fun hfew => hmany hfew.1)

/-- Over every run from an empty directory, the files of the live store are within the bound after
every use exactly when no tenth snapshot is written. -/
theorem retention_bounded {uses : List StoreUse}
    (h : Runs.Along StoreSystem.use UseAssumed {} uses) :
    Runs.Along StoreSystem.use RetentionKept {} uses ↔
      Runs.Along StoreSystem.use FewSnapshots {} uses :=
  RetentionState.along (Or.inl rfl) h

namespace Sample

/-- A process of a number writes a snapshot of nothing. -/
def writes (process_id : UInt64) : StoreUse := .call (.writeSnapshot (process process_id) [])

/-- Three snapshots by two processes, the second of which keeps more of them. -/
def reopenedStore : List StoreUse :=
  [.call (.open_ (process 1) { retained_snapshots := 1 }), writes 1, writes 1, .close (process 1),
    .call (.open_ (process 2) {}), .call (.commit (process 2) .startupMarker []), writes 2, .stop]

/-- Ten snapshots. -/
def tenSnapshots : List StoreUse :=
  .call (.open_ (process 1) {}) :: List.replicate 10 (writes 1)

end Sample

/-- Three snapshots over two processes. -/
theorem retention_bounded_reopened :
    Runs.Along StoreSystem.use RetentionKept {} Sample.reopenedStore ↔
      Runs.Along StoreSystem.use FewSnapshots {} Sample.reopenedStore :=
  retention_bounded (by decide +kernel)

/-- After the tenth snapshot there are five snapshots and two log segments. -/
theorem retention_exceeded :
    ¬ ∀ uses : List StoreUse, Runs.Along StoreSystem.use UseAssumed {} uses →
      Runs.Along StoreSystem.use RetentionKept {} uses := by
  intro hall
  have hkept := hall Sample.tenSnapshots (by decide +kernel)
  exact absurd hkept (by decide +kernel)

end Fcfn
