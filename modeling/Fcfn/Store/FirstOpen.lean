import Fcfn.Store.Crashes

/-!
# The first open

The first open of an empty directory takes the lock, then writes an empty log segment and the
pointer to it. A process may be cut off anywhere in that, and so may the process that opens next.
Without a pointer a file whose name starts as that of a snapshot or of a log segment is taken for
part of a damaged store, and the temporary file of the log segment is named like that too. So the
directory is `Fresh`, `Settled` or, between the creation of the temporary log file and the rename of
the pointer, `Stuck`: no open gets out of that. -/

namespace Fcfn

open Words Files Program
open FileStore (isStoreFile)

/-- A first open that is cut off, after some of its steps and with so many bytes written of the next
one, on a file system that does not fail. -/
def CutFirstOpen : StoreEvent → Prop
  | .crash (.open_ env _) _ _ => env.faults = []
  | _ => False

instance : (event : StoreEvent) → Decidable (CutFirstOpen event)
  | .crash (.open_ env _) _ _ => inferInstanceAs (Decidable (env.faults = []))
  | .crash (.commit _ _ _) _ _ | .crash (.writeSnapshot _ _) _ _ | .call _ => isFalse id

/-- Every open in range that may take the lock succeeds and finds an empty store. -/
def OpensEmpty (dir : StoreDir) : Prop :=
  ∀ (env : FileEnv) (options : StoreOptions), env.faults = [] →
    (1 ≤ options.retained_snapshots ∧ options.retained_snapshots ≤ kMaxRetainedSnapshots) →
      (checkLock env dir).isOk → ∃ store recovery,
        (FileStore.open_ env options dir).1 = .ok (store, recovery) ∧ store.last_sequence = 0 ∧
          recovery.snapshot_payload = [] ∧ recovery.replayed = [] ∧ recovery.torn_tail_bytes = 0

/-- The number of steps that take the lock. -/
def lockSteps (dir : StoreDir) : ℕ := if (dir.read lockPath).isSome then 3 else 2

/-- A first open that takes the lock is cut off before it begins to write the log segment, or after
the pointer has been renamed. -/
def CleanlyCut (sys : StoreSystem) : StoreEvent → Prop
  | .crash (.open_ env options) done written =>
    sys.dir.read currentPath = none →
      (1 ≤ options.retained_snapshots ∧ options.retained_snapshots ≤ kMaxRetainedSnapshots) →
        (checkLock env sys.dir).isOk →
          done < lockSteps sys.dir ∨ (done = lockSteps sys.dir ∧ written = none) ∨
            lockSteps sys.dir + 4 ≤ done
  | _ => True

instance (sys : StoreSystem) : (event : StoreEvent) → Decidable (CleanlyCut sys event)
  | .crash (.open_ _ _) _ _ => inferInstanceAs (Decidable (_ → _ → _ → _))
  | .crash (.commit _ _ _) _ _ | .crash (.writeSnapshot _ _) _ _ | .call _ => isTrue trivial

/-! ## The three kinds of directories -/

/-- No pointer and no file of a store. -/
structure Fresh (dir : StoreDir) : Prop where
  current : dir.read currentPath = none
  files : ∀ name, isStoreFile name = true → dir.read name = none

/-- An empty store. -/
def Settled (dir : StoreDir) : Prop := Holds dir ⟨0, 1⟩ ⟨none, [], 0⟩ []

/-- A file of a store, but no pointer. -/
structure Stuck (dir : StoreDir) : Prop where
  current : dir.read currentPath = none
  files : ∃ name, isStoreFile name = true ∧ (dir.read name).isSome

variable {dir : StoreDir} {env : FileEnv} {options : StoreOptions}

/-- Whether a store file is listed is whether one is read. -/
theorem any_isStoreFile (dir : StoreDir) :
    (dir.any fun file => isStoreFile file.1) = true ↔
      ∃ name, isStoreFile name = true ∧ (dir.read name).isSome := by
  simp only [List.any_eq_true, Dir.read, Option.isSome_map, List.find?_isSome, decide_eq_true_eq]
  constructor
  · rintro ⟨file, hmem, hfile⟩
    exact ⟨file.1, hfile, file, hmem, rfl⟩
  · rintro ⟨name, hname, file, hmem, rfl⟩
    exact ⟨file, hmem, hname⟩

/-- The lock and its temporary file are neither the pointer nor files of the store. -/
theorem lock_not_store {name : Bytes} (h : name ∈ [lockPath, temporaryFor lockPath]) :
    name ≠ currentPath ∧ isStoreFile name = false := by
  simp only [List.mem_cons, List.not_mem_nil, or_false] at h
  rcases h with rfl | rfl
  · decide
  · decide

/-- Steps on the lock touch neither the pointer nor the files of the store. -/
theorem avoids_of_lock {steps : List FileStep}
    (h : ∀ step ∈ steps, ∀ name ∈ step.touches, name ∈ [lockPath, temporaryFor lockPath])
    {name : Bytes} (hname : name = currentPath ∨ isStoreFile name = true) : Avoids name steps := by
  intro step hstep htouches
  obtain ⟨hcurrent, hstore⟩ := lock_not_store (h step hstep name htouches)
  rcases hname with hname | hname
  · exact hcurrent hname
  · exact absurd (hname.symm.trans hstore) (by simp)

/-- Steps that spare the pointer and the files of the store leave a fresh directory fresh. -/
theorem Fresh.spared (h : Fresh dir) {steps : List FileStep}
    (havoids : ∀ name, name = currentPath ∨ isStoreFile name = true → Avoids name steps) :
    Fresh (run dir steps) := by
  refine ⟨?_, fun name hname => ?_⟩
  · rw [read_run dir (havoids _ (Or.inl rfl))]
    exact h.current
  · rw [read_run dir (havoids name (Or.inr hname))]
    exact h.files name hname

/-- Such steps leave a stuck directory stuck. -/
theorem Stuck.spared (h : Stuck dir) {steps : List FileStep}
    (havoids : ∀ name, name = currentPath ∨ isStoreFile name = true → Avoids name steps) :
    Stuck (run dir steps) := by
  obtain ⟨hcurrent, name, hname, hfile⟩ := h
  refine ⟨?_, name, hname, ?_⟩
  · rw [read_run dir (havoids _ (Or.inl rfl))]
    exact hcurrent
  · rw [read_run dir (havoids name (Or.inr hname))]
    exact hfile

/-! ## Opening -/

/-- The steps that take the lock. -/
def acquireSteps (env : FileEnv) (dir : StoreDir) : List FileStep :=
  (if (dir.read lockPath).isSome then [.remove lockPath] else []) ++
    atomicSteps lockPath (toDecimal env.process_id)

theorem length_acquireSteps (env : FileEnv) (dir : StoreDir) :
    (acquireSteps env dir).length = lockSteps dir := by
  unfold acquireSteps lockSteps
  split <;> rfl

/-- They touch the lock only. -/
theorem touches_acquireSteps (env : FileEnv) (dir : StoreDir) :
    ∀ step ∈ acquireSteps env dir, ∀ name ∈ step.touches,
      name ∈ [lockPath, temporaryFor lockPath] := by
  intro step hstep name hname
  unfold acquireSteps at hstep
  rcases List.mem_append.mp hstep with hremove | hwrite
  · split at hremove
    · obtain rfl := List.mem_singleton.mp hremove
      exact List.mem_cons.mpr (Or.inl (List.mem_singleton.mp hname))
    · exact absurd hremove (by simp)
  · simp only [atomicSteps, List.mem_cons, List.not_mem_nil, or_false] at hwrite
    rcases hwrite with rfl | rfl
    · exact List.mem_cons_of_mem _ hname
    · simpa [Step.touches, or_comm] using hname

/-- An open that is out of range or may not take the lock does nothing. -/
theorem open_idle (h : ¬ ((1 ≤ options.retained_snapshots ∧
      options.retained_snapshots ≤ kMaxRetainedSnapshots) ∧ (checkLock env dir).isOk)) :
    ∃ status, FileStore.open_ env options dir = (.error status, []) := by
  unfold FileStore.open_
  by_cases hrange : 1 ≤ options.retained_snapshots ∧
      options.retained_snapshots ≤ kMaxRetainedSnapshots
  · have hlock : (checkLock env dir).isOk = false := by
      rw [← Bool.not_eq_true]
      exact fun hok => h ⟨hrange, hok⟩
    obtain ⟨status, hrefused⟩ := acquireLock_refused hlock
    have hlook : (fun _ : StoreDir => require (1 ≤ options.retained_snapshots &&
        options.retained_snapshots ≤ kMaxRetainedSnapshots) .invalidArgument
          "retained snapshot bound out of range") dir = .ok () := by
      simp [require, hrange]
    exact ⟨status, by rw [look_bind hlook, bind_error hrefused]⟩
  · have hlook : look (fun _ : StoreDir => require (1 ≤ options.retained_snapshots &&
        options.retained_snapshots ≤ kMaxRetainedSnapshots) .invalidArgument
          "retained snapshot bound out of range") dir =
        (fail .invalidArgument "retained snapshot bound out of range", []) := by
      have hfalse : (decide (1 ≤ options.retained_snapshots) &&
          decide (options.retained_snapshots ≤ kMaxRetainedSnapshots)) = false := by
        rw [← Bool.not_eq_true, Bool.and_eq_true, decide_eq_true_eq, decide_eq_true_eq]
        exact hrange
      rw [look, hfalse]
      rfl
    exact ⟨_, bind_error hlook⟩

/-- An open that takes the lock goes on under it. -/
theorem open_acquired (hfaults : env.faults = []) (hrange : 1 ≤ options.retained_snapshots ∧
      options.retained_snapshots ≤ kMaxRetainedSnapshots) (hlock : (checkLock env dir).isOk)
    {outcome : Result (FileStore × FileRecovery)} {steps : List FileStep}
    (hunder : FileStore.openLocked env options (run dir (acquireSteps env dir)) = (outcome, steps)) :
    FileStore.open_ env options dir = (outcome, acquireSteps env dir ++ (steps ++
      if outcome.isOk then [] else [.remove lockPath])) := by
  have hlook : (fun _ : StoreDir => require (1 ≤ options.retained_snapshots &&
      options.retained_snapshots ≤ kMaxRetainedSnapshots) .invalidArgument
        "retained snapshot bound out of range") dir = .ok () := by
    simp [require, hrange]
  have hacquire : acquireLock env dir = (.ok (), acquireSteps env dir) :=
    acquireLock_faultless hfaults hlock
  have houtcome : (FileStore.openLocked env options).outcome (run dir (acquireSteps env dir)) =
      (.ok outcome, steps) := by
    rw [outcome_apply, hunder]
  unfold FileStore.open_ releasingLock
  rw [look_bind hlook, bind_ok hacquire, bind_ok houtcome]
  cases outcome with
  | ok opened => rfl
  | error status =>
    simp only
    rw [attempt_bind (by rw [hfaults]; rfl)]
    rfl

/-- The steps that write an empty store. -/
def freshSteps : List FileStep :=
  atomicSteps (walPathFor 1) [] ++ atomicSteps currentPath (encodeCurrent ⟨0, 1⟩)

/-- Opening a fresh directory writes an empty store. -/
theorem Fresh.open_ (h : Fresh dir) (hfaults : env.faults = [])
    (hrange : 1 ≤ options.retained_snapshots ∧
      options.retained_snapshots ≤ kMaxRetainedSnapshots) (hlock : (checkLock env dir).isOk) :
    FileStore.open_ env options dir =
      (.ok (⟨options, 0, 1, 0⟩, { fresh := true }), acquireSteps env dir ++ freshSteps) := by
  have hfresh := h.spared fun name hname => avoids_of_lock (touches_acquireSteps env dir) hname
  have hnone : ((run dir (acquireSteps env dir)).any fun file => isStoreFile file.1) = false := by
    rw [← Bool.not_eq_true, any_isStoreFile]
    rintro ⟨name, hname, hfile⟩
    rw [hfresh.files name hname] at hfile
    exact absurd hfile (by simp)
  have hlook : (fun dir : StoreDir => require (!dir.any fun file => isStoreFile file.1) .corrupt
      "store files exist without a CURRENT pointer") (run dir (acquireSteps env dir)) = .ok () := by
    simp only [hnone]
    rfl
  have hinitialize : FileStore.initializeFresh env options (run dir (acquireSteps env dir)) =
      (.ok ⟨options, 0, 1, 0⟩, freshSteps) := by
    unfold FileStore.initializeFresh
    rw [bind_ok (writeFileAtomic_faultless hfaults _ _ _),
      bind_ok (writeFileAtomic_faultless hfaults _ _ _)]
    rfl
  have hunder : FileStore.openLocked env options (run dir (acquireSteps env dir)) =
      (.ok (⟨options, 0, 1, 0⟩, { fresh := true }), freshSteps) := by
    unfold FileStore.openLocked fileExists
    rw [look_pure_bind, hfresh.current]
    simp only [Option.isSome_none, Bool.false_eq_true, if_false]
    rw [look_bind hlook, bind_ok hinitialize, pure_apply, List.append_nil]
  rw [open_acquired hfaults hrange hlock hunder]
  simp [Except.isOk, Except.toBool]

/-- Opening a settled directory finds an empty store. -/
theorem Settled.open_ (h : Settled dir) (hfaults : env.faults = [])
    (hrange : 1 ≤ options.retained_snapshots ∧
      options.retained_snapshots ≤ kMaxRetainedSnapshots) (hlock : (checkLock env dir).isOk) :
    ∃ store recovery steps, FileStore.open_ env options dir = (.ok (store, recovery), steps) ∧
      Spares ⟨0, 1⟩ steps ∧ store.last_sequence = 0 ∧ recovery.snapshot_payload = [] ∧
        recovery.replayed = [] ∧ recovery.torn_tail_bytes = 0 := by
  have hopened := open_holds hfaults h hrange hlock
  have hstore : DurableStore.openStore ⟨none, [], 0⟩ options.allow_torn_tail_recovery =
      .ok ⟨⟨⟨none, [], 0⟩, 0⟩, [], []⟩ :=
    DurableStore.openStore_ascends (by simp) (Nat.zero_le _) trivial (Or.inl rfl)
  rw [hstore] at hopened
  obtain ⟨before, after, hbefore, hafter, hopened⟩ := hopened
  exact ⟨_, _, _, hopened, hbefore.append hafter, rfl, rfl, rfl, rfl⟩

/-- Opening a stuck directory is refused, and touches the lock only. -/
theorem Stuck.open_ (h : Stuck dir) (hfaults : env.faults = []) :
    ∃ status steps, FileStore.open_ env options dir = (.error status, steps) ∧
      ∀ step ∈ steps, ∀ name ∈ step.touches, name ∈ [lockPath, temporaryFor lockPath] := by
  by_cases hacquires : (1 ≤ options.retained_snapshots ∧
      options.retained_snapshots ≤ kMaxRetainedSnapshots) ∧ (checkLock env dir).isOk
  · obtain ⟨hrange, hlock⟩ := hacquires
    have hstuck := h.spared fun name hname => avoids_of_lock (touches_acquireSteps env dir) hname
    have hunder : FileStore.openLocked env options (run dir (acquireSteps env dir)) =
        (fail .corrupt "store files exist without a CURRENT pointer", []) := by
      unfold FileStore.openLocked fileExists
      rw [look_pure_bind, hstuck.current]
      simp only [Option.isSome_none, Bool.false_eq_true, if_false]
      refine bind_error ?_
      rw [look, (any_isStoreFile _).mpr hstuck.files]
      rfl
    refine ⟨_, _, open_acquired hfaults hrange hlock hunder, fun step hstep name hname => ?_⟩
    rcases List.mem_append.mp hstep with hstep | hstep
    · exact touches_acquireSteps env dir step hstep name hname
    · obtain rfl : step = .remove lockPath := by
        simpa [fail, Except.isOk, Except.toBool] using hstep
      exact List.mem_cons.mpr (Or.inl (List.mem_singleton.mp hname))
  · obtain ⟨status, hidle⟩ := open_idle hacquires
    exact ⟨status, [], hidle, fun step hstep => absurd hstep (by simp)⟩

/-! ## A crash -/

/-- The steps that write an empty store write it. -/
theorem settled_freshSteps (dir : StoreDir) : Settled (run dir freshSteps) := by
  have hwal : Avoids (walPathFor 1) (atomicSteps currentPath (encodeCurrent ⟨0, 1⟩)) :=
    avoids_atomicSteps _ (ne_of_length (by simp)) (ne_of_length (by simp))
  unfold freshSteps
  rw [run_append]
  refine ⟨read_atomicSteps _ _ _, by decide, Or.inl ⟨rfl, rfl⟩, ?_, by simp, torn_nil, rfl⟩
  rw [read_run _ hwal, read_atomicSteps]
  rfl

/-- Before the last step the pointer is not touched. -/
theorem avoids_crashed_freshSteps {done : ℕ} (h : done < 4) (written : Option ℕ) :
    Avoids currentPath (crashed done written freshSteps) := by
  have hwal : Avoids currentPath (atomicSteps (walPathFor 1) []) :=
    avoids_atomicSteps _ (ne_of_length (by simp)) (ne_of_length (by simp))
  unfold freshSteps
  rcases crashed_append done written (atomicSteps (walPathFor 1) [])
      (atomicSteps currentPath (encodeCurrent ⟨0, 1⟩)) with ⟨-, hcrashed⟩ | ⟨-, hcrashed⟩
  · exact hcrashed ▸ hwal.crashed done written
  · have hlast : done - 2 < 2 := by omega
    have hspares : Spares ⟨0, 1⟩ (crashed (done - 2) written
        (atomicSteps currentPath (encodeCurrent ⟨0, 1⟩))) :=
      spares_crashed_atomicSteps hlast written
        (temporaryFor_not_active ⟨0, 1⟩ (by simp [activePaths]))
    exact hcrashed ▸ hwal.append (hspares currentPath (by simp [activePaths]))

/-- From the first of the steps on, which may have written nothing yet, a file of the store is
there. -/
theorem files_crashed_freshSteps (dir : StoreDir) {done : ℕ} {written : Option ℕ}
    (h : ¬ (done = 0 ∧ written = none)) :
    ∃ name, isStoreFile name = true ∧
      ((run dir (crashed done written freshSteps)).read name).isSome := by
  unfold freshSteps
  rcases crashed_append done written (atomicSteps (walPathFor 1) [])
      (atomicSteps currentPath (encodeCurrent ⟨0, 1⟩)) with ⟨hlt, hcrashed⟩ | ⟨-, hcrashed⟩
  · have hlt : done < 2 := hlt
    have hcreate : crashed done written (atomicSteps (walPathFor 1) []) =
        [.create (temporaryFor (walPathFor 1)) []] := by
      obtain rfl | rfl : done = 0 ∨ done = 1 := by omega
      · cases written with
        | none => exact absurd ⟨rfl, rfl⟩ h
        | some written => simp [crashed, atomicSteps, Step.cut]
      · cases written <;> rfl
    refine ⟨temporaryFor (walPathFor 1), by decide, ?_⟩
    rw [hcrashed, hcreate]
    simp [Step.run]
  · have hcurrent : Avoids (walPathFor 1) (atomicSteps currentPath (encodeCurrent ⟨0, 1⟩)) :=
      avoids_atomicSteps _ (ne_of_length (by simp)) (ne_of_length (by simp))
    refine ⟨walPathFor 1, by decide, ?_⟩
    rw [hcrashed, run_append, read_run _ (hcurrent.crashed _ written), read_atomicSteps]
    rfl

/-- A fresh directory stays fresh or is settled when the crash of an open is a clean one, and is
stuck otherwise. -/
theorem Fresh.next {sys : StoreSystem} (h : Fresh sys.dir) (hstore : sys.store = none)
    (hfaults : env.faults = []) (done : ℕ) (written : Option ℕ) :
    let next := sys.next (.crash (.open_ env options) done written)
    (CleanlyCut sys (.crash (.open_ env options) done written) ∧
      (Fresh next.dir ∨ Settled next.dir)) ∨
    (¬ CleanlyCut sys (.crash (.open_ env options) done written) ∧ Stuck next.dir) := by
  intro next
  by_cases hacquires : (1 ≤ options.retained_snapshots ∧
      options.retained_snapshots ≤ kMaxRetainedSnapshots) ∧ (checkLock env sys.dir).isOk
  · obtain ⟨hrange, hlock⟩ := hacquires
    -- there is no current file yet, so a clean cut is one of its three ranges of steps
    have hclean : CleanlyCut sys (.crash (.open_ env options) done written) ↔
        (done < lockSteps sys.dir ∨ (done = lockSteps sys.dir ∧ written = none) ∨
          lockSteps sys.dir + 4 ≤ done) := by
      simp only [CleanlyCut, h.current, hrange, hlock, and_self, forall_true_left]
    have hperform : sys.perform (.open_ env options) =
        (.ok (.opened { fresh := true }), some ⟨options, 0, 1, 0⟩,
          acquireSteps env sys.dir ++ freshSteps) := by
      simp only [StoreSystem.perform, hstore, h.open_ hfaults hrange hlock]
    have hlength := length_acquireSteps env sys.dir
    have havoids : ∀ name, name = currentPath ∨ isStoreFile name = true →
        Avoids name (acquireSteps env sys.dir) :=
      fun name hname => avoids_of_lock (touches_acquireSteps env sys.dir) hname
    have hnext : next = _ := StoreSystem.next_crash_eq hperform done written
    rw [hnext, hclean]
    -- the crash falls into the steps of the lock, or into those of the first segment
    rcases crashed_append done written (acquireSteps env sys.dir) freshSteps with
      ⟨hlt, hcrashed⟩ | ⟨hge, hcrashed⟩
    · rw [hcrashed]
      refine Or.inl ⟨Or.inl (by omega), Or.inl (h.spared fun name hname => ?_)⟩
      exact (havoids name hname).crashed done written
    · have hacquired := h.spared havoids
      rw [hcrashed, run_append]
      -- four steps write the segment and name it; a store is complete after the last of them
      by_cases hlast : 4 ≤ done - (acquireSteps env sys.dir).length
      · have hall : crashed (done - (acquireSteps env sys.dir).length) written freshSteps =
            freshSteps := crashed_all hlast written
        rw [hall]
        exact Or.inl ⟨Or.inr (Or.inr (by omega)), Or.inr (settled_freshSteps _)⟩
      · by_cases hfirst : done = lockSteps sys.dir ∧ written = none
        · obtain ⟨rfl, rfl⟩ := hfirst
          rw [hlength, Nat.sub_self]
          exact Or.inl ⟨Or.inr (Or.inl ⟨rfl, rfl⟩), Or.inl hacquired⟩
        -- something of the first segment is there, and nothing names it
        · have hpart : ¬ (done - (acquireSteps env sys.dir).length = 0 ∧ written = none) :=
            fun hzero => hfirst ⟨by omega, hzero.2⟩
          refine Or.inr ⟨?_, ?_, files_crashed_freshSteps _ hpart⟩
          · rintro (hlt | hzero | hend)
            · omega
            · exact hfirst hzero
            · omega
          rw [read_run _ (avoids_crashed_freshSteps (by omega) written)]
          exact hacquired.current
  · obtain ⟨status, hidle⟩ := @open_idle sys.dir env options hacquires
    have hperform : sys.perform (.open_ env options) = (.error status, none, []) := by
      simp only [StoreSystem.perform, hstore, hidle]
    have hnext : next = _ := next_crash_idle hperform done written
    rw [hnext]
    exact Or.inl ⟨fun _ hrange hlock => absurd ⟨hrange, hlock⟩ hacquires, Or.inl h⟩

/-- A settled directory stays settled, wherever an open is cut off, which is clean anywhere. -/
theorem Settled.next {sys : StoreSystem} (h : Settled sys.dir) (hstore : sys.store = none)
    (hfaults : env.faults = []) (done : ℕ) (written : Option ℕ) :
    CleanlyCut sys (.crash (.open_ env options) done written) ∧
      Settled (sys.next (.crash (.open_ env options) done written)).dir := by
  have hclean : CleanlyCut sys (.crash (.open_ env options) done written) := by
    intro hnone
    rw [h.current] at hnone
    exact absurd hnone (by simp)
  refine ⟨hclean, ?_⟩
  by_cases hacquires : (1 ≤ options.retained_snapshots ∧
      options.retained_snapshots ≤ kMaxRetainedSnapshots) ∧ (checkLock env sys.dir).isOk
  · obtain ⟨store, recovery, steps, hopen, hspares, -⟩ :=
      h.open_ hfaults hacquires.1 hacquires.2
    have hperform : sys.perform (.open_ env options) =
        (.ok (.opened recovery), some store, steps) := by
      simp only [StoreSystem.perform, hstore, hopen]
    rw [StoreSystem.next_crash_eq hperform]
    exact h.spared (hspares.crashed done written)
  · obtain ⟨status, hidle⟩ := @open_idle sys.dir env options hacquires
    have hperform : sys.perform (.open_ env options) = (.error status, none, []) := by
      simp only [StoreSystem.perform, hstore, hidle]
    rw [next_crash_idle hperform]
    exact h

/-- A stuck directory stays stuck. -/
theorem Stuck.next {sys : StoreSystem} (h : Stuck sys.dir) (hstore : sys.store = none)
    (hfaults : env.faults = []) (done : ℕ) (written : Option ℕ) :
    Stuck (sys.next (.crash (.open_ env options) done written)).dir := by
  obtain ⟨status, steps, hopen, htouches⟩ := @Stuck.open_ sys.dir env options h hfaults
  have hperform : sys.perform (.open_ env options) = (.error status, none, steps) := by
    simp only [StoreSystem.perform, hstore, hopen]
  rw [StoreSystem.next_crash_eq hperform]
  exact h.spared fun name hname => (avoids_of_lock htouches hname).crashed done written

/-! ## Runs -/

/-- Every open of a fresh or a settled directory finds an empty store. -/
theorem opensEmpty_of_fresh_or_settled (h : Fresh dir ∨ Settled dir) : OpensEmpty dir := by
  intro env options hfaults hrange hlock
  rcases h with hfresh | hsettled
  · rw [hfresh.open_ hfaults hrange hlock]
    exact ⟨_, _, rfl, rfl, rfl, rfl, rfl⟩
  · obtain ⟨store, recovery, _, hopen, -, hempty⟩ := hsettled.open_ hfaults hrange hlock
    exact ⟨store, recovery, congrArg Prod.fst hopen, hempty⟩

/-- No open of a stuck directory succeeds. -/
theorem Stuck.not_opensEmpty (h : Stuck dir) : ¬ OpensEmpty dir := by
  intro hopens
  obtain ⟨process_id, hlock⟩ := exists_checkLock dir
  obtain ⟨store, recovery, hok, -⟩ := hopens (Sample.process process_id) {} rfl (by decide) hlock
  obtain ⟨status, steps, hopen, -⟩ := @Stuck.open_ dir (Sample.process process_id) {} h rfl
  rw [hopen] at hok
  exact absurd hok (by simp)

/-- A stuck directory stays stuck over a run of first opens that are cut off. -/
theorem Stuck.exec {sys : StoreSystem} (h : Stuck sys.dir) (hstore : sys.store = none)
    {events : List StoreEvent} (hevents : ∀ event ∈ events, CutFirstOpen event) :
    Stuck (Runs.exec StoreSystem.next sys events).dir := by
  induction events generalizing sys with
  | nil => exact h
  | cons event events ih =>
    have hevent := hevents event (by simp)
    cases event with
    | call _ => exact hevent.elim
    | crash call done written =>
      cases call with
      | commit _ _ _ | writeSnapshot _ _ => exact hevent.elim
      | open_ env options =>
        exact ih (h.next hstore hevent done written) rfl fun event hmem => hevents event (by simp [hmem])

/-- After first opens that were cut off the directory is fresh or settled when every one of them was
cut off cleanly, and stuck otherwise. -/
theorem first_opens {sys : StoreSystem} (hstore : sys.store = none)
    (h : Fresh sys.dir ∨ Settled sys.dir) {events : List StoreEvent}
    (hevents : ∀ event ∈ events, CutFirstOpen event) :
    (Runs.Along StoreSystem.next CleanlyCut sys events ∧
      (Fresh (Runs.exec StoreSystem.next sys events).dir ∨
        Settled (Runs.exec StoreSystem.next sys events).dir)) ∨
    (¬ Runs.Along StoreSystem.next CleanlyCut sys events ∧
      Stuck (Runs.exec StoreSystem.next sys events).dir) := by
  induction events generalizing sys with
  | nil => exact Or.inl ⟨trivial, h⟩
  | cons event events ih =>
    have hevent := hevents event (by simp)
    have hrest : ∀ event ∈ events, CutFirstOpen event := fun event hmem => hevents event (by simp [hmem])
    cases event with
    | call _ => exact hevent.elim
    | crash call done written =>
      cases call with
      | commit _ _ _ | writeSnapshot _ _ => exact hevent.elim
      | open_ env options =>
        have hnext : (CleanlyCut sys (.crash (.open_ env options) done written) ∧
            (Fresh (sys.next (.crash (.open_ env options) done written)).dir ∨
              Settled (sys.next (.crash (.open_ env options) done written)).dir)) ∨
            (¬ CleanlyCut sys (.crash (.open_ env options) done written) ∧
              Stuck (sys.next (.crash (.open_ env options) done written)).dir) := by
          rcases h with hfresh | hsettled
          · exact hfresh.next hstore hevent done written
          · obtain ⟨hclean, hkept⟩ := @Settled.next env options sys hsettled hstore hevent done written
            exact Or.inl ⟨hclean, Or.inr hkept⟩
        -- the first open that is not cut off cleanly decides it: no later one gets past it
        rcases hnext with ⟨hclean, hkept⟩ | ⟨hunclean, hstuck⟩
        · rcases @ih (sys.next (.crash (.open_ env options) done written)) rfl hkept hrest with
            ⟨halong, hlast⟩ | ⟨hnot, hlast⟩
          · exact Or.inl ⟨⟨hclean, halong⟩, hlast⟩
          · exact Or.inr ⟨fun halong => hnot halong.2, hlast⟩
        · exact Or.inr ⟨fun halong => hunclean halong.1, hstuck.exec rfl hrest⟩

/-- After any number of first opens that were cut off, every open succeeds and finds an empty store
exactly when none of them was cut off after it had begun to write the log segment and before the
pointer was in place. -/
theorem first_open_survives {events : List StoreEvent}
    (hevents : ∀ event ∈ events, CutFirstOpen event) :
    OpensEmpty (Runs.exec StoreSystem.next {} events).dir ↔
      Runs.Along StoreSystem.next CleanlyCut {} events := by
  have hstart : Fresh ([] : StoreDir) := ⟨rfl, fun _ _ => rfl⟩
  rcases @first_opens {} rfl (Or.inl hstart) events hevents with
    ⟨hclean, hkept⟩ | ⟨hunclean, hstuck⟩
  · exact iff_of_true (opensEmpty_of_fresh_or_settled hkept) hclean
  · exact iff_of_false hstuck.not_opensEmpty hunclean

namespace Sample

/-- A process that is cut off before it writes the log segment, one that is cut off while it takes the
lock over, and one that is cut off when the pointer is in place. -/
def cleanOpens : List StoreEvent :=
  [.crash (.open_ (process 1) {}) 2 none, .crash (.open_ (process 2) {}) 1 (some 1),
    .crash (.open_ (process 3) {}) 6 none]

/-- A process that is cut off when it has created the temporary file of the log segment. -/
def brokenOpen : List StoreEvent := [.crash (.open_ (process 1) {}) 3 none]

end Sample

/-- Three first opens that were cut off cleanly. -/
theorem first_open_survives_clean :
    OpensEmpty (Runs.exec StoreSystem.next {} Sample.cleanOpens).dir ↔
      Runs.Along StoreSystem.next CleanlyCut {} Sample.cleanOpens :=
  first_open_survives (by decide)

/-- A first open that is cut off before it renames the temporary file of the log segment leaves a
directory that the next process takes for a damaged store. -/
theorem interrupted_open_refused :
    ¬ ∀ events : List StoreEvent, (∀ event ∈ events, CutFirstOpen event) →
      OpensEmpty (Runs.exec StoreSystem.next {} events).dir := by
  intro hall
  obtain ⟨store, recovery, hok, -⟩ := hall Sample.brokenOpen (by decide) (Sample.process 2) {} rfl
    (by decide) (by decide +kernel)
  have hrefused : (FileStore.open_ (Sample.process 2) {}
      (Runs.exec StoreSystem.next {} Sample.brokenOpen).dir).1.isOk = false := by decide +kernel
  rw [hok] at hrefused
  exact absurd hrefused (by simp [Except.isOk, Except.toBool])

end Fcfn
