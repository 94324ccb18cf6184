import Fcfn.Store.Reading

/-!
# What the operations make of the files

One operation of the store after the other: what the files hold once its steps are taken, and what
they may hold when a crash interrupts them. An append leaves a record or part of one; a snapshot is
there from the step on that renames the pointer; opening cuts off part of a record. -/

namespace Fcfn

open Words Files Program

variable {dir : StoreDir} {pointer : CurrentPointer} {disk : Disk} {torn : Bytes}

/-- Before its rename an atomic write touches the temporary file only. -/
theorem spares_crashed_atomicSteps {target bytes : Bytes} {done : ℕ} (hdone : done < 2)
    (written : Option ℕ) {pointer : CurrentPointer}
    (htemporary : temporaryFor target ∉ activePaths pointer) :
    Spares pointer (crashed done written (atomicSteps target bytes)) := by
  have hcreate : ∀ bytes, Spares pointer [.create (temporaryFor target) bytes] := by
    intro bytes name hname step hstep
    obtain rfl := List.mem_singleton.mp hstep
    simp only [Step.touches, List.mem_singleton]
    rintro rfl
    exact htemporary hname
  have hnil : Spares pointer [] := fun _ _ _ hstep => absurd hstep (by simp)
  obtain rfl | rfl : done = 0 ∨ done = 1 := by omega
  · cases written with
    | none => exact hnil
    | some written => exact hcreate _
  · cases written with
    | none => exact hcreate bytes
    | some written => exact hcreate bytes

/-- An atomic write of a file that is not active spares the active ones. -/
theorem spares_atomicSteps {target : Bytes} (bytes : Bytes) {pointer : CurrentPointer}
    (htarget : target ∉ activePaths pointer)
    (htemporary : temporaryFor target ∉ activePaths pointer) :
    Spares pointer (atomicSteps target bytes) := by
  intro name hname
  refine avoids_atomicSteps bytes ?_ ?_
  · rintro rfl
    exact htarget hname
  · rintro rfl
    exact htemporary hname

/-- The temporary file of an active file is not active. -/
theorem temporaryFor_not_active {target : Bytes} (pointer : CurrentPointer)
    {pointer' : CurrentPointer} (htarget : target ∈ activePaths pointer) :
    temporaryFor target ∉ activePaths pointer' := by
  intro hname
  have hlength : target.length = 7 ∨ target.length = 30 ∨ target.length = 25 := by
    simp only [activePaths, List.mem_cons, List.not_mem_nil, or_false] at htarget
    rcases htarget with rfl | rfl | rfl <;> simp
  have hlength' : (temporaryFor target).length = 7 ∨ (temporaryFor target).length = 30 ∨
      (temporaryFor target).length = 25 := by
    simp only [activePaths, List.mem_cons, List.not_mem_nil, or_false] at hname
    rcases hname with h | h | h <;> rw [h] <;> simp
  rw [length_temporaryFor] at hlength'
  omega

/-! ## Opening -/

/-- A repair cuts off part of a record at the end of the log. -/
theorem Holds.repaired (h : Holds dir pointer disk torn) :
    Holds (run dir (repairSteps pointer disk torn)) pointer { disk with torn_bytes := 0 } [] := by
  unfold repairSteps
  split
  · rename_i htorn
    subst htorn
    exact ⟨h.current, h.segment, h.snapshot, h.log, h.frames, torn_nil, rfl⟩
  · have hwal : walPathFor pointer.wal ∈ activePaths pointer := by simp [activePaths]
    have hother : ∀ name ∈ activePaths pointer, name ≠ walPathFor pointer.wal →
        (run dir (atomicSteps (walPathFor pointer.wal) (disk.log.flatMap Frame.encode))).read name =
          dir.read name := by
      intro name hname hne
      refine read_run dir (avoids_atomicSteps _ hne ?_)
      rintro rfl
      exact temporaryFor_not_active pointer hwal hname
    have hcurrent := hother currentPath (by simp [activePaths]) (ne_of_length (by simp))
    have hsnapshot := hother (snapshotPathFor pointer.snapshot) (by simp [activePaths])
      (ne_of_length (by simp))
    refine ⟨hcurrent.trans h.current, h.segment, ?_, ?_, h.frames, torn_nil, rfl⟩
    · rw [hsnapshot]
      exact h.snapshot
    · rw [read_atomicSteps, List.append_nil]

/-- A crash of an open leaves the part of a record at the end of the log, or has cut it off. -/
theorem Holds.crashed_open (h : Holds dir pointer disk torn) {before after : List FileStep}
    (hbefore : Spares pointer before) (hafter : Spares pointer after) (done : ℕ)
    (written : Option ℕ) :
    ∃ torn', Holds
      (run dir (crashed done written (before ++ (repairSteps pointer disk torn ++ after)))) pointer
        { disk with torn_bytes := torn'.length } torn' := by
  have hsame : { disk with torn_bytes := torn.length } = disk := by rw [← h.torn_bytes]
  rcases crashed_append done written before (repairSteps pointer disk torn ++ after) with
    ⟨-, hcrashed⟩ | ⟨-, hcrashed⟩
  · refine ⟨torn, ?_⟩
    rw [hcrashed, hsame]
    exact h.spared (hbefore.crashed done written)
  · rw [hcrashed, run_append]
    generalize done - before.length = done
    rcases crashed_append done written (repairSteps pointer disk torn) after with
      ⟨hlt, hcrashed⟩ | ⟨-, hcrashed⟩
    · refine ⟨torn, ?_⟩
      rw [hcrashed, hsame]
      unfold repairSteps at hlt ⊢
      split at hlt
      · exact absurd hlt (by simp)
      · rename_i htorn
        rw [if_neg htorn]
        exact (h.spared hbefore).spared (spares_crashed_atomicSteps hlt written
          (temporaryFor_not_active pointer (by simp [activePaths])))
    · refine ⟨[], ?_⟩
      rw [hcrashed, run_append]
      exact (h.spared hbefore).repaired.spared (hafter.crashed _ written)

/-! ## Appending -/

/-- What an append of some bytes leaves in the log. -/
theorem Holds.read_append (h : Holds dir pointer disk torn) (bytes : Bytes) :
    (run dir [.append (walPathFor pointer.wal) bytes]).read (walPathFor pointer.wal) =
      some (disk.log.flatMap Frame.encode ++ torn ++ bytes) := by
  simp [Step.run, h.log]

/-- What the files hold when the log is what an append has made of it. -/
theorem Holds.appending (h : Holds dir pointer disk torn) (bytes : Bytes) {disk' : Disk}
    {torn' : Bytes} (hsnapshot : disk'.snapshot = disk.snapshot)
    (hlog : disk.log.flatMap Frame.encode ++ torn ++ bytes =
      disk'.log.flatMap Frame.encode ++ torn')
    (hframes : ∀ frame ∈ disk'.log, frame.payload.length ≤ kMaxRecordPayloadBytes)
    (htorn : Torn torn') (htorn_bytes : disk'.torn_bytes = torn'.length) :
    Holds (run dir [.append (walPathFor pointer.wal) bytes]) pointer disk' torn' := by
  have hother : ∀ name, name ≠ walPathFor pointer.wal →
      (run dir [.append (walPathFor pointer.wal) bytes]).read name = dir.read name := by
    intro name hne
    refine read_run dir fun step hstep => ?_
    obtain rfl := List.mem_singleton.mp hstep
    simpa [Step.touches] using hne
  refine ⟨(hother _ (ne_of_length (by simp))).trans h.current, h.segment, ?_, ?_, hframes, htorn,
    htorn_bytes⟩
  · rw [hother _ (ne_of_length (by simp)), hsnapshot]
    exact h.snapshot
  · rw [h.read_append, hlog]

/-- A record that is appended is in the log. -/
theorem Holds.appended (h : Holds dir pointer disk []) {frame : Frame}
    (hframe : frame.payload.length ≤ kMaxRecordPayloadBytes) :
    Holds (run dir [.append (walPathFor pointer.wal) frame.encode]) pointer
      { disk with log := disk.log ++ [frame] } [] := by
  refine h.appending _ rfl (by simp) ?_ torn_nil h.torn_bytes
  intro other hother
  rcases List.mem_append.mp hother with hold | hnew
  · exact h.frames other hold
  · exact List.mem_singleton.mp hnew ▸ hframe

/-- Part of a record that is appended is at the end of the log. -/
theorem Holds.torn_append (h : Holds dir pointer disk []) {frame : Frame}
    (hframe : frame.payload.length ≤ kMaxRecordPayloadBytes) {written : ℕ}
    (hwritten : written < frame.size) :
    Holds (run dir [.append (walPathFor pointer.wal) (frame.encode.take written)]) pointer
      { disk with torn_bytes := (frame.encode.take written).length } (frame.encode.take written) :=
  h.appending _ rfl (by simp) h.frames ⟨frame, hframe, written, hwritten, rfl⟩ rfl

/-- What the files hold after some bytes of a record were appended: the record, or part of it. -/
theorem Holds.append_some (h : Holds dir pointer disk []) {frame : Frame}
    (hframe : frame.payload.length ≤ kMaxRecordPayloadBytes) (written : ℕ) :
    ∃ disk' torn', Holds (run dir [.append (walPathFor pointer.wal) (frame.encode.take written)])
      pointer disk' torn' ∧ disk'.snapshot = disk.snapshot ∧
        (disk'.log = disk.log ∨ disk'.log = disk.log ++ [frame]) := by
  rcases Nat.lt_or_ge written frame.size with hlt | hge
  · exact ⟨_, _, h.torn_append hframe hlt, rfl, Or.inl rfl⟩
  · rw [List.take_of_length_le (by rw [length_encode]; exact hge)]
    exact ⟨_, _, h.appended hframe, rfl, Or.inr rfl⟩

/-- An append writes all of its bytes, or some when a fault stops it. -/
theorem appendFileDurable_eq (env : FileEnv) (path bytes : Bytes) (dir : StoreDir) :
    appendFileDurable env path bytes dir =
      match env.faults.lookup (.append path bytes) with
      | none => (.ok (), [.append path bytes])
      | some written => (fail .ioError "short append", [.append path (bytes.take written)]) := by
  unfold appendFileDurable
  cases hfault : env.faults.lookup (.append path bytes) with
  | none =>
    rw [attempt_bind hfault]
    rfl
  | some written =>
    have hattempt : attempt (ε := Status) env.faults (.append path bytes) dir =
        (.ok false, [.append path (bytes.take written)]) := by
      unfold attempt
      rw [hfault]
      rfl
    rw [bind_ok hattempt]
    rfl

/-- A commit appends its record, or does not get to it. -/
theorem commit_cases {env : FileEnv} {store : FileStore} {type : RecordType} {payload : Bytes}
    {frame : Frame} (hframe : frame = ⟨type, store.last_sequence + 1, payload⟩) (dir : StoreDir) :
    ((∃ status, FileStore.commit env store type payload dir = (.error status, [])) ∧
        ¬ (payload.length ≤ kMaxRecordPayloadBytes ∧
          store.last_sequence < store.last_sequence + 1)) ∨
      (payload.length ≤ kMaxRecordPayloadBytes ∧ store.last_sequence < store.last_sequence + 1 ∧
        FileStore.commit env store type payload dir =
          match env.faults.lookup (.append (walPathFor store.wal_segment) frame.encode) with
          | none => (.ok { store with last_sequence := store.last_sequence + 1 },
              [.append (walPathFor store.wal_segment) frame.encode])
          | some written => (fail .ioError "short append",
              [.append (walPathFor store.wal_segment) (frame.encode.take written)])) := by
  subst hframe
  unfold FileStore.commit
  split
  · rename_i hlen
    exact Or.inl ⟨⟨_, rfl⟩, fun h => absurd h.1 (by omega)⟩
  · rename_i hlen
    simp only
    split
    · rename_i hnext
      exact Or.inl ⟨⟨_, rfl⟩, fun h => absurd h.2 (UInt64.not_lt.mpr hnext)⟩
    · rename_i hnext
      -- past both checks the outcome is that of the append
      refine Or.inr ⟨by omega, UInt64.not_le.mp hnext, ?_⟩
      have happend := appendFileDurable_eq env (walPathFor store.wal_segment)
        (encodeRecord type (store.last_sequence + 1) payload) dir
      unfold Frame.encode
      simp only
      cases hfault : env.faults.lookup (.append (walPathFor store.wal_segment)
          (encodeRecord type (store.last_sequence + 1) payload)) with
      | none =>
        rw [hfault] at happend
        rw [bind_ok happend]
        rfl
      | some written =>
        rw [hfault] at happend
        exact bind_error happend

/-! ## Snapshots -/

/-- The steps that write a snapshot, a new log segment and the pointer to them. -/
def publishSteps (pointer : CurrentPointer) (sequence : Sequence) (payload : Bytes) :
    List FileStep :=
  atomicSteps (snapshotPathFor (pointer.snapshot + 1))
      (encodeSnapshotFile (encodeRecord .snapshotPayload sequence payload)) ++
    (atomicSteps (walPathFor (pointer.wal + 1)) [] ++
      atomicSteps currentPath (encodeCurrent ⟨pointer.snapshot + 1, pointer.wal + 1⟩))

/-- The next number is another one. -/
theorem add_one_ne (n : UInt64) : n + 1 ≠ n := by
  intro h
  have hmod := congrArg UInt64.toNat h
  have hlt := n.toNat_lt
  rw [UInt64.toNat_add] at hmod
  simp only [UInt64.toNat_one] at hmod
  omega

/-- The files of the next snapshot are not active yet. -/
theorem next_not_active (pointer : CurrentPointer) :
    snapshotPathFor (pointer.snapshot + 1) ∉ activePaths pointer ∧
      walPathFor (pointer.wal + 1) ∉ activePaths pointer := by
  simp only [activePaths, List.mem_cons, List.not_mem_nil, or_false, not_or]
  refine ⟨⟨ne_of_length (by simp), fun h => ?_, ne_of_length (by simp)⟩,
    ne_of_length (by simp), ne_of_length (by simp), fun h => ?_⟩
  · exact add_one_ne _ (snapshotPathFor_injective h)
  · exact add_one_ne _ (walPathFor_injective h)

/-- Until the pointer is renamed a snapshot spares the active files. -/
theorem spares_crashed_publishSteps {sequence : Sequence} {payload : Bytes} {done : ℕ}
    (hdone : done < 6) (written : Option ℕ) :
    Spares pointer (crashed done written (publishSteps pointer sequence payload)) := by
  obtain ⟨hsnapshot, hwal⟩ := next_not_active pointer
  have hsnapshot_temporary : temporaryFor (snapshotPathFor (pointer.snapshot + 1)) ∉
      activePaths pointer :=
    temporaryFor_not_active ⟨pointer.snapshot + 1, 0⟩ (by simp [activePaths])
  have hwal_temporary : temporaryFor (walPathFor (pointer.wal + 1)) ∉ activePaths pointer :=
    temporaryFor_not_active ⟨0, pointer.wal + 1⟩ (by simp [activePaths])
  have hcurrent_temporary : temporaryFor currentPath ∉ activePaths pointer :=
    temporaryFor_not_active pointer (by simp [activePaths])
  have hspares_snapshot := spares_atomicSteps
    (encodeSnapshotFile (encodeRecord .snapshotPayload sequence payload)) hsnapshot
      hsnapshot_temporary
  have hspares_wal := spares_atomicSteps [] hwal hwal_temporary
  unfold publishSteps
  rcases crashed_append done written (atomicSteps (snapshotPathFor (pointer.snapshot + 1))
      (encodeSnapshotFile (encodeRecord .snapshotPayload sequence payload))) (atomicSteps
        (walPathFor (pointer.wal + 1)) [] ++ atomicSteps currentPath
          (encodeCurrent ⟨pointer.snapshot + 1, pointer.wal + 1⟩)) with
    ⟨-, hcrashed⟩ | ⟨hge, hcrashed⟩
  · rw [hcrashed]
    exact hspares_snapshot.crashed done written
  · rw [hcrashed]
    refine hspares_snapshot.append ?_
    rcases crashed_append (done - 2) written (atomicSteps (walPathFor (pointer.wal + 1)) [])
        (atomicSteps currentPath (encodeCurrent ⟨pointer.snapshot + 1, pointer.wal + 1⟩)) with
      ⟨-, hcrashed⟩ | ⟨-, hcrashed⟩
    · exact hcrashed ▸ hspares_wal.crashed (done - 2) written
    · refine hcrashed ▸ hspares_wal.append (spares_crashed_atomicSteps ?_ written hcurrent_temporary)
      show done - 2 - 2 < 2
      omega

/-- Once the pointer is renamed the files hold the snapshot and an empty log. -/
theorem Holds.published (hsnapshot : pointer.snapshot + 1 ≠ 0) (hwal : pointer.wal + 1 ≠ 0)
    {sequence : Sequence} {payload : Bytes} (hmax : payload.length ≤ kMaxSnapshotPayloadBytes)
    (dir : StoreDir) :
    Holds (run dir (publishSteps pointer sequence payload))
      ⟨pointer.snapshot + 1, pointer.wal + 1⟩ ⟨some (sequence, payload), [], 0⟩ [] := by
  have htemporary : ∀ {name target : Bytes}, name.length = 30 ∨ name.length = 25 →
      target.length = 25 ∨ target.length = 7 → name ≠ temporaryFor target := by
    intro name target hname htarget
    refine ne_of_length ?_
    rw [length_temporaryFor]
    omega
  unfold publishSteps
  rw [run_append, run_append]
  refine ⟨read_atomicSteps _ _ _, hwal, Or.inr ⟨sequence, payload, hsnapshot, rfl, hmax, ?_⟩, ?_,
    by simp, torn_nil, rfl⟩
  · rw [read_run _ (avoids_atomicSteps _ (ne_of_length (by simp)) (htemporary (by simp) (by simp))),
      read_run _ (avoids_atomicSteps _ (ne_of_length (by simp)) (htemporary (by simp) (by simp))),
      read_atomicSteps]
  · rw [read_run _ (avoids_atomicSteps _ (ne_of_length (by simp)) (htemporary (by simp) (by simp))),
      read_atomicSteps]
    rfl

/-- A snapshot that is published takes these steps. -/
theorem publishSnapshot_of_ok {env : FileEnv} {store store' : FileStore} {payload : Bytes}
    {dir : StoreDir} {steps : List FileStep}
    (h : FileStore.publishSnapshot env store payload dir = (.ok store', steps)) :
    payload.length ≤ kMaxSnapshotPayloadBytes ∧
      store' = { store with
        snapshot_sequence := store.snapshot_sequence + 1, wal_segment := store.wal_segment + 1 } ∧
        steps = publishSteps ⟨store.snapshot_sequence, store.wal_segment⟩ store.last_sequence
          payload := by
  unfold FileStore.publishSnapshot at h
  split at h
  · exact absurd (Prod.mk.inj h).1 (by simp)
  · rename_i hmax
    obtain ⟨_, first, _, hsnapshot, hlater, rfl⟩ := of_bind_ok h
    obtain ⟨_, second, _, hwal, hlast, rfl⟩ := of_bind_ok hlater
    obtain ⟨_, third, _, hcurrent, hreturn, rfl⟩ := of_bind_ok hlast
    obtain ⟨hstore, rfl⟩ := Prod.mk.inj hreturn
    refine ⟨not_lt.mp hmax, (Except.ok.inj hstore).symm, ?_⟩
    rw [writeFileAtomic_of_ok hsnapshot, writeFileAtomic_of_ok hwal, writeFileAtomic_of_ok hcurrent,
      List.append_nil]
    rfl

/-- A snapshot that is written without a failure takes these steps, and then those of the cleanup. -/
theorem writeSnapshot_cleaned_of_ok {env : FileEnv} {store store' : FileStore} {payload : Bytes}
    {dir : StoreDir} {steps : List FileStep}
    (h : store.writeSnapshot env payload dir = (.ok (.ok (), store'), steps)) :
    payload.length ≤ kMaxSnapshotPayloadBytes ∧
      store' = { store with
        snapshot_sequence := store.snapshot_sequence + 1, wal_segment := store.wal_segment + 1 } ∧
        ∃ before after, before = publishSteps ⟨store.snapshot_sequence, store.wal_segment⟩
            store.last_sequence payload ∧
          FileStore.cleanupOldFiles env store' (run dir before) = (.ok (), after) ∧
            steps = before ++ after := by
  unfold FileStore.writeSnapshot at h
  obtain ⟨outcome, first, later, hpublish, hlater, rfl⟩ := of_bind_ok h
  cases outcome with
  | error status => exact absurd (Prod.mk.inj hlater).1 (by simp)
  | ok published =>
    have hsteps : FileStore.publishSnapshot env store payload dir = (.ok published, first) := by
      rw [outcome_apply] at hpublish
      obtain ⟨hok, hfirst⟩ := Prod.mk.inj hpublish
      exact Prod.ext (Except.ok.inj hok) hfirst
    obtain ⟨hmax, hpublished, hfirst⟩ := publishSnapshot_of_ok hsteps
    obtain ⟨cleaned, after, last, hcleanup, hreturn, rfl⟩ := of_bind_ok hlater
    obtain ⟨hstore, rfl⟩ := Prod.mk.inj hreturn
    obtain ⟨rfl, rfl⟩ := Prod.mk.inj (Except.ok.inj hstore)
    rw [outcome_apply] at hcleanup
    obtain ⟨hok, hafter⟩ := Prod.mk.inj hcleanup
    exact ⟨hmax, hpublished, first, after, hfirst, Prod.ext (Except.ok.inj hok) hafter,
      by rw [List.append_nil]⟩

/-- A snapshot that is written without a failure takes these steps, and then some that spare the new
files. -/
theorem writeSnapshot_of_ok {env : FileEnv} {store store' : FileStore} {payload : Bytes}
    {dir : StoreDir} {steps : List FileStep}
    (h : store.writeSnapshot env payload dir = (.ok (.ok (), store'), steps)) :
    payload.length ≤ kMaxSnapshotPayloadBytes ∧
      store' = { store with
        snapshot_sequence := store.snapshot_sequence + 1, wal_segment := store.wal_segment + 1 } ∧
        ∃ after, Spares ⟨store.snapshot_sequence + 1, store.wal_segment + 1⟩ after ∧
          steps = publishSteps ⟨store.snapshot_sequence, store.wal_segment⟩ store.last_sequence
            payload ++ after := by
  obtain ⟨hmax, hstore, before, after, hbefore, hcleanup, rfl⟩ := writeSnapshot_cleaned_of_ok h
  have hspares := spares_of_only (spares_cleanupOldFiles env store') (run dir before)
  rw [hcleanup, hstore] at hspares
  exact ⟨hmax, hstore, after, hspares, by rw [hbefore]⟩

/-- A snapshot within its bound is written when the file system does not fail. -/
theorem writeSnapshot_faultless {env : FileEnv} (hfaults : env.faults = []) (store : FileStore)
    {payload : Bytes} (hmax : payload.length ≤ kMaxSnapshotPayloadBytes) (dir : StoreDir) :
    ∃ store' steps, store.writeSnapshot env payload dir = (.ok (.ok (), store'), steps) := by
  have hpublish : ∃ store' steps,
      FileStore.publishSnapshot env store payload dir = (.ok store', steps) := by
    unfold FileStore.publishSnapshot
    rw [if_neg (not_lt.mpr hmax), bind_ok (writeFileAtomic_faultless hfaults _ _ _),
      bind_ok (writeFileAtomic_faultless hfaults _ _ _),
      bind_ok (writeFileAtomic_faultless hfaults _ _ _)]
    exact ⟨_, _, rfl⟩
  obtain ⟨store', steps, hpublish⟩ := hpublish
  have houtcome : (FileStore.publishSnapshot env store payload).outcome dir =
      (.ok (.ok store'), steps) := by
    rw [outcome_apply, hpublish]
  have hcleanup : (FileStore.cleanupOldFiles env store').outcome (run dir steps) =
      (.ok (.ok ()), (FileStore.cleanupOldFiles env store' (run dir steps)).2) := by
    rw [outcome_apply, cleanupOldFiles_faultless hfaults]
  unfold FileStore.writeSnapshot
  rw [bind_ok houtcome]
  simp only
  rw [bind_ok hcleanup]
  exact ⟨_, _, rfl⟩

end Fcfn
