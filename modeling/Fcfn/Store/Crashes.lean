import Fcfn.Lib.Runs
import Fcfn.Store.Writing

/-!
# Crashes of the store

A process opens the store, commits records and writes snapshots, and stops anywhere: between two
calls, or within one, after any of its steps and in the middle of what a step writes. What the next
open recovers is compared with a ledger of what was acknowledged. `Holds` is what carries the
argument over a run: a commit appends to what the files hold, a snapshot replaces it when the
pointer is renamed and not before, and opening cuts off part of a record at most. -/

namespace Fcfn

open Words Files Program

/-! ## The system of files -/

/-- A call on the store. -/
inductive StoreCall
  | open_ (env : FileEnv) (options : StoreOptions)
  | commit (env : FileEnv) (type : RecordType) (payload : Bytes)
  | writeSnapshot (env : FileEnv) (payload : Bytes)
  deriving DecidableEq

/-- What a call that succeeds returns. -/
inductive StoreReply
  | opened (recovery : FileRecovery)
  | done

/-- What happens to the store. -/
inductive StoreEvent
  | call (call : StoreCall)
  /-- The process stops within a call, after some of its steps and with so many bytes written of the
  next one, if it was in progress. -/
  | crash (call : StoreCall) (done : ℕ) (written : Option ℕ)
  deriving DecidableEq

/-- The files, and the store of the live process. -/
structure StoreSystem where
  dir : StoreDir := []
  store : Option FileStore := none

namespace StoreSystem

/-- What a call returns, the store it leaves to the process, and the steps it takes. -/
def perform (sys : StoreSystem) : StoreCall → Result StoreReply × Option FileStore × List FileStep
  | .open_ env options =>
    match sys.store with
    | some store => (fail .alreadyExists "store is already open by a live process", some store, [])
    | none =>
      match FileStore.open_ env options sys.dir with
      | (.error status, steps) => (.error status, none, steps)
      | (.ok (store, recovery), steps) => (.ok (.opened recovery), some store, steps)
  | .commit env type payload =>
    match sys.store with
    | none => (fail .notFound "no store is open", none, [])
    | some store =>
      match store.commit env type payload sys.dir with
      | (.error status, steps) => (.error status, some store, steps)
      | (.ok store', steps) => (.ok .done, some store', steps)
  | .writeSnapshot env payload =>
    match sys.store with
    | none => (fail .notFound "no store is open", none, [])
    | some store =>
      match store.writeSnapshot env payload sys.dir with
      | (.error status, steps) => (.error status, some store, steps)
      | (.ok (outcome, store'), steps) => (outcome.map fun _ => .done, some store', steps)

/-- What a call returns. -/
def reply (sys : StoreSystem) (call : StoreCall) : Result StoreReply := (sys.perform call).1

/-- The steps that a call takes. -/
def steps (sys : StoreSystem) (call : StoreCall) : List FileStep := (sys.perform call).2.2

/-- The system after an event. -/
def next (sys : StoreSystem) : StoreEvent → StoreSystem
  | .call call => ⟨run sys.dir (sys.steps call), (sys.perform call).2.1⟩
  | .crash call done written => ⟨run sys.dir (crashed done written (sys.steps call)), none⟩

section Perform

variable {sys : StoreSystem} {call : StoreCall} {outcome : Result StoreReply}
  {store : Option FileStore} {taken : List FileStep}

theorem reply_eq (h : sys.perform call = (outcome, store, taken)) : sys.reply call = outcome := by
  rw [reply, h]

theorem steps_eq (h : sys.perform call = (outcome, store, taken)) : sys.steps call = taken := by
  rw [steps, h]

theorem next_call_eq (h : sys.perform call = (outcome, store, taken)) :
    sys.next (.call call) = ⟨run sys.dir taken, store⟩ := by
  rw [next, steps, h]

theorem next_crash_eq (h : sys.perform call = (outcome, store, taken)) (done : ℕ)
    (written : Option ℕ) :
    sys.next (.crash call done written) = ⟨run sys.dir (crashed done written taken), none⟩ := by
  rw [next, steps, h]

end Perform

end StoreSystem

/-- What was acknowledged: the last published snapshot, the records after it, and the record whose
append a crash interrupted. -/
structure StoreLedger where
  snapshot : Option (Sequence × Bytes) := none
  records : List Frame := []
  in_flight : Option Frame := none

namespace StoreLedger

/-- Whether the pointer is replaced by the first steps of a snapshot. -/
def publishes (steps : List FileStep) : Bool :=
  steps.contains (.rename (temporaryFor currentPath) currentPath)

/-- Keep the ledger. A record is in once its commit has returned, a snapshot once the pointer names
it, and what an open recovers is from then on acknowledged. -/
def note (sys : StoreSystem) (event : StoreEvent) (ledger : StoreLedger) : StoreLedger :=
  match event with
  | .call (.open_ env options) =>
    match sys.reply (.open_ env options) with
    | .ok (.opened recovery) => { ledger with records := recovery.replayed, in_flight := none }
    | _ => ledger
  | .call (.commit env type payload) =>
    match sys.store, sys.reply (.commit env type payload) with
    | some store, .ok _ =>
      { ledger with records := ledger.records ++ [⟨type, store.last_sequence + 1, payload⟩] }
    | _, _ => ledger
  | .call (.writeSnapshot env payload) =>
    match sys.store, sys.reply (.writeSnapshot env payload) with
    | some store, .ok _ => { snapshot := some (store.last_sequence, payload) }
    | _, _ => ledger
  | .crash (.open_ _ _) _ _ => ledger
  | .crash (.commit _ type payload) _ _ =>
    match sys.store with
    | some store => { ledger with in_flight := some ⟨type, store.last_sequence + 1, payload⟩ }
    | none => ledger
  | .crash (.writeSnapshot env payload) done _ =>
    match sys.store with
    | some store =>
      if publishes ((sys.steps (.writeSnapshot env payload)).take done) then
        { snapshot := some (store.last_sequence, payload) }
      else ledger
    | none => ledger

end StoreLedger

/-- The log segment that the pointer names. -/
def activeLog (dir : StoreDir) : Option Bytes := do
  let bytes ← dir.read currentPath
  let pointer ← (decodeCurrent bytes).toOption
  dir.read (walPathFor pointer.wal)

/-- A call can open the store: its options are in range and allow to recover a torn tail, the lock
names no live process, the log segment can be read and the file system does not fail. -/
def CanOpen (dir : StoreDir) (env : FileEnv) (options : StoreOptions) : Prop :=
  env.faults = [] ∧ options.allow_torn_tail_recovery = true ∧
    (1 ≤ options.retained_snapshots ∧ options.retained_snapshots ≤ kMaxRetainedSnapshots) ∧
      (checkLock env dir).isOk ∧ ∀ log ∈ activeLog dir, log.length ≤ kMaxWalFileBytes

/-- What is assumed of an event: calls on an open store succeed, snapshots fit in a record, the
store can be opened, and a file system does not fail the steps of a call that a crash interrupts. -/
def StoreAssumed (sys : StoreSystem) : StoreEvent → Prop
  | .call (.open_ env options) => CanOpen sys.dir env options
  | .call (.commit env type payload) => (sys.reply (.commit env type payload)).isOk
  | .call (.writeSnapshot env payload) =>
    (sys.reply (.writeSnapshot env payload)).isOk ∧ payload.length ≤ kMaxRecordPayloadBytes
  | .crash (.open_ env options) _ _ => CanOpen sys.dir env options
  | .crash (.commit env _ _) _ _ => env.faults = []
  | .crash (.writeSnapshot env payload) _ _ =>
    env.faults = [] ∧ payload.length ≤ kMaxRecordPayloadBytes

instance (dir : StoreDir) (env : FileEnv) (options : StoreOptions) :
    Decidable (CanOpen dir env options) :=
  have : Decidable (∀ log ∈ activeLog dir, log.length ≤ kMaxWalFileBytes) :=
    Option.decidableForallMem _
  inferInstanceAs (Decidable (_ ∧ _ ∧ _ ∧ _ ∧ _))

instance (sys : StoreSystem) : (event : StoreEvent) → Decidable (StoreAssumed sys event)
  | .call (.open_ env options) => inferInstanceAs (Decidable (CanOpen sys.dir env options))
  | .call (.commit env type payload) =>
    inferInstanceAs (Decidable ((sys.reply (.commit env type payload)).isOk = true))
  | .call (.writeSnapshot env payload) =>
    inferInstanceAs (Decidable ((sys.reply (.writeSnapshot env payload)).isOk = true ∧ _))
  | .crash (.open_ env options) _ _ => inferInstanceAs (Decidable (CanOpen sys.dir env options))
  | .crash (.commit env _ _) _ _ => inferInstanceAs (Decidable (env.faults = []))
  | .crash (.writeSnapshot env _) _ _ => inferInstanceAs (Decidable (env.faults = [] ∧ _))

/-- The numbers of the files of the next snapshot are not used up. -/
def Rotates (sys : StoreSystem) : StoreEvent → Prop
  | .call (.writeSnapshot _ _) | .crash (.writeSnapshot _ _) _ _ =>
    ∀ store ∈ sys.store, store.wal_segment + 1 ≠ 0
  | _ => True

instance (sys : StoreSystem) : (event : StoreEvent) → Decidable (Rotates sys event)
  | .call (.writeSnapshot _ _) | .crash (.writeSnapshot _ _) _ _ =>
    (Option.decidableForallMem _ : Decidable (∀ store ∈ sys.store, store.wal_segment + 1 ≠ 0))
  | .call (.open_ _ _) | .call (.commit _ _ _) | .crash (.open_ _ _) _ _
  | .crash (.commit _ _ _) _ _ => isTrue trivial

/-- The pointer is read back, names files that are there, and is that of the live process. -/
def ActiveFilesKept (sys : StoreSystem) : Prop :=
  ∃ bytes pointer, sys.dir.read currentPath = some bytes ∧ decodeCurrent bytes = .ok pointer ∧
    (pointer.snapshot = 0 ∨ (sys.dir.read (snapshotPathFor pointer.snapshot)).isSome) ∧
      (sys.dir.read (walPathFor pointer.wal)).isSome ∧
        ∀ store ∈ sys.store, pointer = ⟨store.snapshot_sequence, store.wal_segment⟩

/-- An open of a closed store recovers the published snapshot and exactly the acknowledged records,
or also the one in flight, and no event loses an active file. -/
def StoreRecovered (p : StoreSystem × StoreLedger) (event : StoreEvent) : Prop :=
  ActiveFilesKept (p.1.next event) ∧
    match event with
    | .call (.open_ env options) => p.1.store = none → ∃ store recovery,
      (FileStore.open_ env options p.1.dir).1 = .ok (store, recovery) ∧
        recovery.snapshot_payload = DurableStore.snapshotPayload p.2.snapshot ∧
          (recovery.replayed = p.2.records ∨
            ∃ frame ∈ p.2.in_flight, recovery.replayed = p.2.records ++ [frame]) ∧
              store.last_sequence = DurableStore.lastSequence
                (DurableStore.snapshotSequence p.2.snapshot) recovery.replayed
    | _ => True

/-- The log segment that the pointer names. -/
theorem activeLog_of_current {dir : StoreDir} {pointer : CurrentPointer}
    (hcurrent : dir.read currentPath = some (encodeCurrent pointer)) (hsegment : pointer.wal ≠ 0) :
    activeLog dir = dir.read (walPathFor pointer.wal) := by
  have hdecode : decodeCurrent (encodeCurrent pointer) = .ok pointer := by
    rw [decodeCurrent_encode, if_neg hsegment]
  unfold activeLog
  rw [hcurrent]
  simp [hdecode, Except.toOption]

/-- The log segment that the pointer names is what the files hold. -/
theorem Holds.activeLog {dir : StoreDir} {pointer : CurrentPointer} {disk : Disk} {torn : Bytes}
    (h : Holds dir pointer disk torn) :
    activeLog dir = some (disk.log.flatMap Frame.encode ++ torn) :=
  (activeLog_of_current h.current h.segment).trans h.log

/-- What a commit that succeeds does: it appends its record under the next sequence. -/
theorem commit_of_ok {sys : StoreSystem} {env : FileEnv} {type : RecordType} {payload : Bytes}
    (hok : (sys.reply (.commit env type payload)).isOk) (ledger : StoreLedger) :
    ∃ store frame, sys.store = some store ∧ frame = ⟨type, store.last_sequence + 1, payload⟩ ∧
      frame.payload.length ≤ kMaxRecordPayloadBytes ∧
        store.last_sequence < store.last_sequence + 1 ∧
          sys.next (.call (.commit env type payload)) =
            ⟨run sys.dir [.append (walPathFor store.wal_segment) frame.encode],
              some { store with last_sequence := store.last_sequence + 1 }⟩ ∧
            StoreLedger.note sys (.call (.commit env type payload)) ledger =
              { ledger with records := ledger.records ++ [frame] } := by
  cases hstore : sys.store with
  | none =>
    simp [StoreSystem.reply, StoreSystem.perform, hstore, fail, Except.isOk, Except.toBool] at hok
  | some store =>
    obtain ⟨frame, hframe⟩ : ∃ frame : Frame, frame = ⟨type, store.last_sequence + 1, payload⟩ :=
      ⟨_, rfl⟩
    -- a commit that did not reach its append, or whose append failed, is not a success
    rcases @commit_cases env store type payload frame hframe sys.dir with
      ⟨⟨status, hcommit⟩, -⟩ | ⟨hmax, hlater, hcommit⟩
    · simp [StoreSystem.reply, StoreSystem.perform, hstore, hcommit, Except.isOk,
        Except.toBool] at hok
    cases hfault : env.faults.lookup (.append (walPathFor store.wal_segment) frame.encode) with
    | some written =>
      rw [hfault] at hcommit
      simp [StoreSystem.reply, StoreSystem.perform, hstore, hcommit, fail, Except.isOk,
        Except.toBool] at hok
    | none =>
      rw [hfault] at hcommit
      have hperform : sys.perform (.commit env type payload) = (.ok .done,
          some { store with last_sequence := store.last_sequence + 1 },
            [.append (walPathFor store.wal_segment) frame.encode]) := by
        simp only [StoreSystem.perform, hstore, hcommit]
      refine ⟨store, frame, rfl, hframe, hframe ▸ hmax, hlater,
        StoreSystem.next_call_eq hperform, ?_⟩
      simp only [StoreLedger.note, hstore, StoreSystem.reply_eq hperform, hframe]

/-! ## The invariant -/

open DurableStore (snapshotSequence snapshotPayload lastSequence)

/-- What the files hold between two events: the published snapshot and the acknowledged records, or
also the one in flight, numbered one after the other. A live process knows the pointer and the last
sequence. -/
structure StoreInv (sys : StoreSystem) (ledger : StoreLedger) (pointer : CurrentPointer)
    (disk : Disk) (torn : Bytes) : Prop where
  holds : Holds sys.dir pointer disk torn
  numbered : pointer.snapshot + 1 = pointer.wal
  snapshot : disk.snapshot = ledger.snapshot
  fits : ∀ p ∈ disk.snapshot, p.2.length ≤ kMaxRecordPayloadBytes
  ascends : DurableStore.Ascends (snapshotSequence disk.snapshot) disk.log
  log : disk.log = ledger.records ∨
    ∃ frame ∈ ledger.in_flight, disk.log = ledger.records ++ [frame]
  live : ∀ store ∈ sys.store, torn = [] ∧ ledger.in_flight = none ∧
    pointer = ⟨store.snapshot_sequence, store.wal_segment⟩ ∧
      store.last_sequence = lastSequence (snapshotSequence disk.snapshot) disk.log

section StoreInv

variable {sys : StoreSystem} {ledger : StoreLedger} {pointer : CurrentPointer} {disk : Disk}
  {torn : Bytes}

/-- No active file is lost. -/
theorem StoreInv.active (h : StoreInv sys ledger pointer disk torn) : ActiveFilesKept sys := by
  refine ⟨_, pointer, h.holds.current, ?_, ?_, ?_, fun store hstore => (h.live store hstore).2.2.1⟩
  · rw [decodeCurrent_encode, if_neg h.holds.segment]
  · rcases h.holds.snapshot with ⟨hzero, -⟩ | ⟨sequence, payload, -, -, -, hfile⟩
    · exact Or.inl hzero
    · exact Or.inr (by rw [hfile]; rfl)
  · rw [h.holds.log]
    rfl

/-- What the record-level store is opened to. -/
theorem StoreInv.openStore (h : StoreInv sys ledger pointer disk torn) {env : FileEnv}
    {options : StoreOptions} (hopen : CanOpen sys.dir env options) :
    DurableStore.openStore disk options.allow_torn_tail_recovery =
      .ok ⟨⟨{ disk with torn_bytes := 0 },
        lastSequence (snapshotSequence disk.snapshot) disk.log⟩, snapshotPayload disk.snapshot,
          disk.log⟩ := by
  obtain ⟨-, hallow, -, -, hlog⟩ := hopen
  have hlength := hlog _ h.holds.activeLog
  rw [List.length_append, length_flatMap_encode, ← h.holds.torn_bytes] at hlength
  exact DurableStore.openStore_ascends h.fits hlength h.ascends (Or.inr hallow)

/-- Opening a closed store recovers what the files hold. -/
theorem StoreInv.opened (h : StoreInv sys ledger pointer disk torn) {env : FileEnv}
    {options : StoreOptions} (hopen : CanOpen sys.dir env options) :
    ∃ store recovery before after, Spares pointer before ∧ Spares pointer after ∧
      FileStore.open_ env options sys.dir = (.ok (store, recovery),
        before ++ (repairSteps pointer disk torn ++ after)) ∧
          recovery.snapshot_payload = snapshotPayload disk.snapshot ∧ recovery.replayed = disk.log ∧
            pointer = ⟨store.snapshot_sequence, store.wal_segment⟩ ∧
              store.last_sequence = lastSequence (snapshotSequence disk.snapshot) disk.log := by
  have hrecovered := h.openStore hopen
  obtain ⟨hfaults, -, hretained, hlock, -⟩ := hopen
  have hopened := open_holds hfaults h.holds hretained hlock
  rw [hrecovered] at hopened
  obtain ⟨before, after, hbefore, hafter, hopened⟩ := hopened
  exact ⟨_, _, before, after, hbefore, hafter, hopened, rfl, rfl, rfl, rfl⟩

/-- A second open of a live store is refused and leaves everything as it was. -/
theorem perform_open_live {env : FileEnv} {options : StoreOptions} {store : FileStore}
    (hstore : sys.store = some store) : sys.perform (.open_ env options) =
      (fail .alreadyExists "store is already open by a live process", some store, []) := by
  simp only [StoreSystem.perform, hstore]

/-- Opening keeps the invariant. -/
theorem StoreInv.next_open (h : StoreInv sys ledger pointer disk torn) {env : FileEnv}
    {options : StoreOptions} (hopen : CanOpen sys.dir env options) :
    ∃ pointer disk torn, StoreInv (sys.next (.call (.open_ env options)))
      (StoreLedger.note sys (.call (.open_ env options)) ledger) pointer disk torn := by
  cases hstore : sys.store with
  | some store =>
    have hperform := @perform_open_live sys env options store hstore
    have hnote : StoreLedger.note sys (.call (.open_ env options)) ledger = ledger := by
      simp only [StoreLedger.note, StoreSystem.reply_eq hperform, fail]
    refine ⟨pointer, disk, torn, ?_⟩
    rw [StoreSystem.next_call_eq hperform, hnote, run_nil, ← hstore]
    exact h
  | none =>
    obtain ⟨store, recovery, before, after, hbefore, hafter, hopened, -, hreplayed, hpointer, hlast⟩ :=
      h.opened hopen
    -- what comes before the repair and after it touches neither the pointer's files nor the log
    have hperform : sys.perform (.open_ env options) = (.ok (.opened recovery), some store,
        before ++ (repairSteps pointer disk torn ++ after)) := by
      simp only [StoreSystem.perform, hstore, hopened]
    have hnote : StoreLedger.note sys (.call (.open_ env options)) ledger =
        { ledger with records := recovery.replayed, in_flight := none } := by
      simp only [StoreLedger.note, StoreSystem.reply_eq hperform]
    refine ⟨pointer, { disk with torn_bytes := 0 }, [], ?_⟩
    rw [StoreSystem.next_call_eq hperform, hnote, run_append, run_append]
    refine ⟨(h.holds.spared hbefore).repaired.spared hafter, h.numbered, h.snapshot, h.fits,
      h.ascends, Or.inl hreplayed.symm, fun store' hstore' => ?_⟩
    obtain rfl := Option.some.inj hstore'
    exact ⟨rfl, rfl, hpointer, hlast⟩

/-- The records of a live process are in the log. -/
theorem StoreInv.records (h : StoreInv sys ledger pointer disk torn)
    (hin_flight : ledger.in_flight = none) : disk.log = ledger.records := by
  rcases h.log with hlog | ⟨frame, hframe, -⟩
  · exact hlog
  · rw [hin_flight] at hframe
    exact absurd hframe (by simp)

/-- A commit that succeeds keeps the invariant. -/
theorem StoreInv.next_commit (h : StoreInv sys ledger pointer disk torn) {env : FileEnv}
    {type : RecordType} {payload : Bytes}
    (hok : (sys.reply (.commit env type payload)).isOk) :
    ∃ pointer disk torn, StoreInv (sys.next (.call (.commit env type payload)))
      (StoreLedger.note sys (.call (.commit env type payload)) ledger) pointer disk torn := by
  obtain ⟨store, frame, hstore, hframe, hmax, hlater, hnext, hnote⟩ := commit_of_ok hok ledger
  have hsequence : frame.sequence = store.last_sequence + 1 := by rw [hframe]
  obtain ⟨rfl, hin_flight, rfl, hlast⟩ := h.live store hstore
  refine ⟨⟨store.snapshot_sequence, store.wal_segment⟩,
    { disk with log := disk.log ++ [frame] }, [], ?_⟩
  rw [hnext, hnote]
  refine ⟨h.holds.appended hmax, h.numbered, h.snapshot, h.fits, h.ascends.concat ?_,
    Or.inl (by rw [h.records hin_flight]), fun store' hstore' => ?_⟩
  · rw [← hlast, hsequence]
    exact hlater
  · obtain rfl := Option.some.inj hstore'
    refine ⟨rfl, hin_flight, rfl, ?_⟩
    rw [DurableStore.lastSequence_concat, hsequence]

/-- What a live process has published keeps the invariant, when the files have numbers. -/
theorem StoreInv.published (h : StoreInv sys ledger pointer disk torn) {store : FileStore}
    (hpointer : pointer = ⟨store.snapshot_sequence, store.wal_segment⟩) {payload : Bytes}
    (hmax : payload.length ≤ kMaxRecordPayloadBytes) (hrotates : store.wal_segment + 1 ≠ 0)
    {after : List FileStep} (hafter : Spares ⟨store.snapshot_sequence + 1, store.wal_segment + 1⟩ after)
    {left : Option FileStore} (hleft : ∀ store' ∈ left, store' = { store with
        snapshot_sequence := store.snapshot_sequence + 1, wal_segment := store.wal_segment + 1 }) :
    StoreInv ⟨run sys.dir (publishSteps pointer store.last_sequence payload ++ after), left⟩
      { snapshot := some (store.last_sequence, payload) }
      ⟨store.snapshot_sequence + 1, store.wal_segment + 1⟩
      ⟨some (store.last_sequence, payload), [], 0⟩ [] := by
  subst hpointer
  have hnumbered : store.snapshot_sequence + 1 = store.wal_segment := h.numbered
  have hsnapshot : store.snapshot_sequence + 1 ≠ 0 := hnumbered ▸ h.holds.segment
  have hmax' : payload.length ≤ kMaxSnapshotPayloadBytes := hmax.trans (by decide)
  rw [run_append]
  refine ⟨(Holds.published hsnapshot hrotates hmax' sys.dir).spared hafter, ?_, rfl, ?_, trivial,
    Or.inl rfl, fun store' hstore' => ?_⟩
  · show store.snapshot_sequence + 1 + 1 = store.wal_segment + 1
    rw [hnumbered]
  · intro p hp
    obtain rfl := Option.some.inj hp
    exact hmax
  · obtain rfl := hleft store' hstore'
    exact ⟨rfl, rfl, rfl, rfl⟩

/-- A snapshot that is written keeps the invariant, when its files have numbers. -/
theorem StoreInv.next_writeSnapshot (h : StoreInv sys ledger pointer disk torn) {env : FileEnv}
    {payload : Bytes} (hok : (sys.reply (.writeSnapshot env payload)).isOk)
    (hmax : payload.length ≤ kMaxRecordPayloadBytes)
    (hrotates : ∀ store ∈ sys.store, store.wal_segment + 1 ≠ 0) :
    ∃ pointer disk torn, StoreInv (sys.next (.call (.writeSnapshot env payload)))
      (StoreLedger.note sys (.call (.writeSnapshot env payload)) ledger) pointer disk torn := by
  cases hstore : sys.store with
  | none =>
    simp [StoreSystem.reply, StoreSystem.perform, hstore, fail, Except.isOk, Except.toBool] at hok
  | some store =>
    obtain ⟨-, -, hpointer, -⟩ := h.live store hstore
    cases hwrite : store.writeSnapshot env payload sys.dir with
    | mk outcome taken =>
      cases outcome with
      | error status =>
        simp [StoreSystem.reply, StoreSystem.perform, hstore, hwrite, Except.isOk,
          Except.toBool] at hok
      | ok written =>
        obtain ⟨cleaned, store'⟩ := written
        have hperform : sys.perform (.writeSnapshot env payload) =
            (cleaned.map fun _ => .done, some store', taken) := by
          simp only [StoreSystem.perform, hstore, hwrite]
        cases cleaned with
        | error status =>
          rw [StoreSystem.reply_eq hperform] at hok
          simp [Except.map, Except.isOk, Except.toBool] at hok
        | ok u =>
          -- the steps up to the pointer publish the snapshot, what comes after only cleans up
          obtain ⟨-, hstore', after, hafter, rfl⟩ := writeSnapshot_of_ok hwrite
          have hnote : StoreLedger.note sys (.call (.writeSnapshot env payload)) ledger =
              { snapshot := some (store.last_sequence, payload) } := by
            simp only [StoreLedger.note, hstore, StoreSystem.reply_eq hperform, Except.map]
          rw [StoreSystem.next_call_eq hperform, hnote]
          refine ⟨_, _, [], hpointer ▸ h.published hpointer hmax (hrotates store hstore) hafter ?_⟩
          rintro _ ⟨⟩
          exact hstore'

/-! ## Crashes -/

/-- A process that stops keeps what the files hold. -/
theorem StoreInv.stopped (h : StoreInv sys ledger pointer disk torn) :
    StoreInv ⟨sys.dir, none⟩ ledger pointer disk torn :=
  ⟨h.holds, h.numbered, h.snapshot, h.fits, h.ascends, h.log, fun _ hstore => absurd hstore (by simp)⟩

/-- A crash of a call that takes no steps. -/
theorem next_crash_idle {call : StoreCall} {outcome : Result StoreReply} {store : Option FileStore}
    (hperform : sys.perform call = (outcome, store, [])) (done : ℕ) (written : Option ℕ) :
    sys.next (.crash call done written) = ⟨sys.dir, none⟩ := by
  rw [StoreSystem.next_crash_eq hperform, crashed_nil, run_nil]

/-- A crash of an open keeps the invariant. -/
theorem StoreInv.crash_open (h : StoreInv sys ledger pointer disk torn) {env : FileEnv}
    {options : StoreOptions} (hopen : CanOpen sys.dir env options) (done : ℕ)
    (written : Option ℕ) : ∃ pointer disk torn,
      StoreInv (sys.next (.crash (.open_ env options) done written)) ledger pointer disk torn := by
  cases hstore : sys.store with
  | some store =>
    rw [next_crash_idle (@perform_open_live sys env options store hstore)]
    exact ⟨_, _, _, h.stopped⟩
  | none =>
    obtain ⟨store, recovery, before, after, hbefore, hafter, hopened, -⟩ := h.opened hopen
    have hperform : sys.perform (.open_ env options) = (.ok (.opened recovery), some store,
        before ++ (repairSteps pointer disk torn ++ after)) := by
      simp only [StoreSystem.perform, hstore, hopened]
    obtain ⟨torn', hholds⟩ := h.holds.crashed_open hbefore hafter done written
    rw [StoreSystem.next_crash_eq hperform]
    exact ⟨pointer, _, torn', hholds, h.numbered, h.snapshot, h.fits, h.ascends, h.log,
      fun _ hstore => absurd hstore (by simp)⟩

/-- What a crash leaves of one append is a part of it, or nothing. -/
theorem crashed_append_cases (done : ℕ) (written : Option ℕ) (path bytes : Bytes) :
    crashed done written [(.append path bytes : FileStep)] = [] ∨
      ∃ n, crashed done written [(.append path bytes : FileStep)] = [.append path (bytes.take n)] := by
  cases done with
  | zero =>
    cases written with
    | none => exact Or.inl rfl
    | some n => exact Or.inr ⟨n, rfl⟩
  | succ done =>
    refine Or.inr ⟨bytes.length, ?_⟩
    rw [List.take_length]
    cases written <;> simp [crashed]

/-- A crash of a commit leaves its record in flight. -/
theorem StoreInv.crash_commit (h : StoreInv sys ledger pointer disk torn) {env : FileEnv}
    (hfaults : env.faults = []) {type : RecordType} {payload : Bytes} (done : ℕ)
    (written : Option ℕ) : ∃ pointer disk torn,
      StoreInv (sys.next (.crash (.commit env type payload) done written))
        (StoreLedger.note sys (.crash (.commit env type payload) done written) ledger)
          pointer disk torn := by
  cases hstore : sys.store with
  | none =>
    have hperform : sys.perform (.commit env type payload) =
        (fail .notFound "no store is open", none, []) := by
      simp only [StoreSystem.perform, hstore]
    have hnote : StoreLedger.note sys (.crash (.commit env type payload) done written) ledger =
        ledger := by
      simp only [StoreLedger.note, hstore]
    rw [next_crash_idle hperform, hnote]
    exact ⟨_, _, _, h.stopped⟩
  | some store =>
    obtain ⟨rfl, hin_flight, rfl, hlast⟩ := h.live store hstore
    obtain ⟨frame, hframe⟩ : ∃ frame : Frame, frame = ⟨type, store.last_sequence + 1, payload⟩ :=
      ⟨_, rfl⟩
    have hnote : StoreLedger.note sys (.crash (.commit env type payload) done written) ledger =
        { ledger with in_flight := some frame } := by
      simp only [StoreLedger.note, hstore, hframe]
    have hrecords := h.records hin_flight
    -- if nothing was written, the record in flight is one that was lost
    have hidle : StoreInv ⟨sys.dir, none⟩ { ledger with in_flight := some frame }
        ⟨store.snapshot_sequence, store.wal_segment⟩ disk [] :=
      ⟨h.holds, h.numbered, h.snapshot, h.fits, h.ascends, Or.inl hrecords,
        fun _ hstore => absurd hstore (by simp)⟩
    rw [hnote]
    rcases @commit_cases env store type payload frame hframe sys.dir with
      ⟨⟨status, hcommit⟩, -⟩ | ⟨hmax, hnext, hcommit⟩
    · have hperform : sys.perform (.commit env type payload) = (.error status, some store, []) := by
        simp only [StoreSystem.perform, hstore, hcommit]
      rw [next_crash_idle hperform]
      exact ⟨_, _, _, hidle⟩
    · rw [hfaults] at hcommit
      have hperform : sys.perform (.commit env type payload) = (.ok .done,
          some { store with last_sequence := store.last_sequence + 1 },
            [.append (walPathFor store.wal_segment) frame.encode]) := by
        simp only [StoreSystem.perform, hstore, hcommit, List.lookup_nil]
      rw [StoreSystem.next_crash_eq hperform]
      rcases crashed_append_cases done written (walPathFor store.wal_segment) frame.encode with
        hnone | ⟨n, hsome⟩
      · rw [hnone]
        exact ⟨_, _, _, hidle⟩
      · have hpayload : frame.payload.length ≤ kMaxRecordPayloadBytes := hframe ▸ hmax
        -- the record is in the log as a whole or as its torn tail
        obtain ⟨disk', torn', hholds, hsnapshot, hlog⟩ := h.holds.append_some hpayload n
        rw [hsome]
        refine ⟨_, disk', torn', hholds, h.numbered, hsnapshot.trans h.snapshot, ?_, ?_, ?_,
          fun _ hstore => absurd hstore (by simp)⟩
        · rw [hsnapshot]
          exact h.fits
        · rw [hsnapshot]
          rcases hlog with hlog | hlog
          · rw [hlog]
            exact h.ascends
          · rw [hlog]
            refine h.ascends.concat ?_
            rw [← hlast, hframe]
            exact hnext
        · rcases hlog with hlog | hlog
          · exact Or.inl (hlog.trans hrecords)
          · exact Or.inr ⟨frame, rfl, by rw [hlog, hrecords]⟩

/-- The first steps of a snapshot replace the pointer when they are six. -/
theorem publishes_take {sequence : Sequence} {payload : Bytes} {after : List FileStep} (done : ℕ) :
    StoreLedger.publishes ((publishSteps pointer sequence payload ++ after).take done) =
      decide (6 ≤ done) := by
  -- the pointer is renamed into its place by the sixth step, and no step before touches an active
  -- file
  by_cases hdone : 6 ≤ done
  · rw [decide_eq_true hdone]
    have hmem : Step.rename (temporaryFor currentPath) currentPath ∈
        publishSteps pointer sequence payload := by
      simp [publishSteps, atomicSteps]
    have hpublish : (publishSteps pointer sequence payload ++ after).take done =
        publishSteps pointer sequence payload ++ after.take (done - 6) := by
      rw [List.take_append, List.take_of_length_le]
      · rfl
      · exact hdone
    unfold StoreLedger.publishes
    rw [hpublish, List.contains_iff_mem]
    exact List.mem_append_left _ hmem
  · rw [decide_eq_false hdone]
    have hspares := @spares_crashed_publishSteps pointer sequence payload done (by omega) none
    have hpart : (publishSteps pointer sequence payload ++ after).take done =
        crashed done none (publishSteps pointer sequence payload) := by
      unfold crashed
      rw [List.append_nil, List.take_append_of_le_length]
      show done ≤ 6
      omega
    unfold StoreLedger.publishes
    rw [hpart, Bool.eq_false_iff, ne_eq, List.contains_iff_mem]
    intro hmem
    exact hspares currentPath (by simp [activePaths]) _ hmem (by simp [Step.touches])

/-- A crash of a snapshot leaves the store as it was or as the snapshot makes it. -/
theorem StoreInv.crash_writeSnapshot (h : StoreInv sys ledger pointer disk torn) {env : FileEnv}
    (hfaults : env.faults = []) {payload : Bytes} (hmax : payload.length ≤ kMaxRecordPayloadBytes)
    (hrotates : ∀ store ∈ sys.store, store.wal_segment + 1 ≠ 0) (done : ℕ)
    (written : Option ℕ) : ∃ pointer disk torn,
      StoreInv (sys.next (.crash (.writeSnapshot env payload) done written))
        (StoreLedger.note sys (.crash (.writeSnapshot env payload) done written) ledger)
          pointer disk torn := by
  cases hstore : sys.store with
  | none =>
    have hperform : sys.perform (.writeSnapshot env payload) =
        (fail .notFound "no store is open", none, []) := by
      simp only [StoreSystem.perform, hstore]
    have hnote : StoreLedger.note sys (.crash (.writeSnapshot env payload) done written) ledger =
        ledger := by
      simp only [StoreLedger.note, hstore]
    rw [next_crash_idle hperform, hnote]
    exact ⟨_, _, _, h.stopped⟩
  | some store =>
    obtain ⟨-, -, hpointer, -⟩ := h.live store hstore
    obtain ⟨store', taken, hwrite⟩ := writeSnapshot_faultless hfaults store
      (hmax.trans (show kMaxRecordPayloadBytes ≤ kMaxSnapshotPayloadBytes by decide)) sys.dir
    obtain ⟨-, -, after, hafter, rfl⟩ := writeSnapshot_of_ok hwrite
    rw [← hpointer] at hwrite
    have hperform : sys.perform (.writeSnapshot env payload) = (.ok .done, some store',
        publishSteps pointer store.last_sequence payload ++ after) := by
      simp only [StoreSystem.perform, hstore, hwrite, Except.map]
    -- the ledger counts the snapshot from the sixth step on, and so do the files
    have hpublishes : StoreLedger.publishes
        ((sys.steps (.writeSnapshot env payload)).take done) = decide (6 ≤ done) := by
      rw [StoreSystem.steps_eq hperform, publishes_take]
    rw [StoreSystem.next_crash_eq hperform]
    rcases crashed_append done written (publishSteps pointer store.last_sequence payload) after with
      ⟨hlt, hcrashed⟩ | ⟨hge, hcrashed⟩
    · have hlt : done < 6 := hlt
      have hnote : StoreLedger.note sys (.crash (.writeSnapshot env payload) done written) ledger =
          ledger := by
        simp only [StoreLedger.note, hstore, hpublishes, not_le.mpr hlt, decide_false,
          Bool.false_eq_true, if_false]
      rw [hcrashed, hnote]
      exact ⟨pointer, disk, torn, h.holds.spared (spares_crashed_publishSteps hlt written),
        h.numbered, h.snapshot, h.fits, h.ascends, h.log, fun _ hstore => absurd hstore (by simp)⟩
    · have hge : 6 ≤ done := hge
      have hnote : StoreLedger.note sys (.crash (.writeSnapshot env payload) done written) ledger =
          { snapshot := some (store.last_sequence, payload) } := by
        simp only [StoreLedger.note, hstore, hpublishes, hge, decide_true, if_true]
      rw [hcrashed, hnote]
      exact ⟨_, _, [], h.published hpointer hmax (hrotates store hstore) (hafter.crashed _ written)
        fun _ hstore => absurd hstore (by simp)⟩

/-! ## Runs -/

/-- An event that is as assumed, and whose snapshot has numbers for its files, keeps the invariant
and recovers what was acknowledged. -/
theorem StoreInv.next (h : StoreInv sys ledger pointer disk torn) {event : StoreEvent}
    (hassumed : StoreAssumed sys event) (hrotates : Rotates sys event) :
    (∃ pointer disk torn, StoreInv (sys.next event) (StoreLedger.note sys event ledger)
      pointer disk torn) ∧ StoreRecovered (sys, ledger) event := by
  have hkept : ∃ pointer disk torn, StoreInv (sys.next event) (StoreLedger.note sys event ledger)
      pointer disk torn := by
    cases event with
    | call call =>
      cases call with
      | open_ env options => exact h.next_open hassumed
      | commit env type payload => exact h.next_commit hassumed
      | writeSnapshot env payload => exact h.next_writeSnapshot hassumed.1 hassumed.2 hrotates
    | crash call done written =>
      cases call with
      | open_ env options => exact h.crash_open hassumed done written
      | commit env type payload => exact h.crash_commit hassumed done written
      | writeSnapshot env payload =>
        exact h.crash_writeSnapshot hassumed.1 hassumed.2 hrotates done written
  refine ⟨hkept, ?_⟩
  obtain ⟨_, _, _, hnext⟩ := hkept
  refine ⟨hnext.active, ?_⟩
  cases event with
  | crash _ _ _ => trivial
  | call call =>
    cases call with
    | commit _ _ _ | writeSnapshot _ _ => trivial
    | open_ env options =>
      -- what an open returns is what the invariant says of the files
      intro _
      obtain ⟨store, recovery, _, _, -, -, hopened, hpayload, hreplayed, -, hlast⟩ :=
        h.opened hassumed
      refine ⟨store, recovery, congrArg Prod.fst hopened, ?_, ?_, ?_⟩
      · rw [hpayload, h.snapshot]
      · rw [hreplayed]
        exact h.log
      · rw [hlast, hreplayed, h.snapshot]

end StoreInv

/-- A store that a process has initialized in an empty directory. -/
def StoreSystem.initialized (env : FileEnv) (options : StoreOptions) : StoreSystem :=
  StoreSystem.next {} (.call (.open_ env options))

/-- Taking the lock spares the active files. -/
theorem spares_of_acquireLock {env : FileEnv} {dir : StoreDir} {u : Unit} {steps : List FileStep}
    (h : acquireLock env dir = (.ok u, steps)) (pointer : CurrentPointer) : Spares pointer steps := by
  have hspares := spares_of_only (spares_acquireLock env pointer) dir
  rwa [h] at hspares

/-- An initialized store holds nothing. -/
theorem initialized_holds {env : FileEnv} {options : StoreOptions}
    (hok : (StoreSystem.reply {} (.open_ env options)).isOk) :
    StoreInv (.initialized env options) {} ⟨0, 1⟩ ⟨none, [], 0⟩ [] := by
  cases hopened : FileStore.open_ env options [] with
  | mk outcome taken =>
    cases outcome with
    | error status =>
      simp [StoreSystem.reply, StoreSystem.perform, hopened, Except.isOk, Except.toBool] at hok
    | ok opened =>
      obtain ⟨store, recovery⟩ := opened
      have hperform : StoreSystem.perform {} (.open_ env options) =
          (.ok (.opened recovery), some store, taken) := by
        simp only [StoreSystem.perform, hopened]
      obtain ⟨before, later, hacquire, hunder, rfl⟩ := open_of_ok hopened
      have hbefore := spares_of_acquireLock hacquire ⟨0, 1⟩
      have hnone : (run [] before).read currentPath = none :=
        read_run [] (hbefore currentPath (by simp [activePaths]))
      -- there is no pointer yet, so the open writes one to an empty log
      obtain ⟨rfl, hstore⟩ := openLocked_fresh_of_ok hnone hunder
      have hwal : Avoids (walPathFor 1) (atomicSteps currentPath (encodeCurrent ⟨0, 1⟩)) :=
        avoids_atomicSteps _ (ne_of_length (by simp)) (ne_of_length (by simp))
      rw [StoreSystem.initialized, StoreSystem.next_call_eq hperform, run_append, run_append]
      refine ⟨⟨read_atomicSteps _ _ _, by decide, Or.inl ⟨rfl, rfl⟩, ?_, by simp, torn_nil, rfl⟩,
        by decide, rfl, by simp, trivial, Or.inl rfl, fun store' hstore' => ?_⟩
      · rw [read_run _ hwal, read_atomicSteps]
        rfl
      · obtain rfl := Option.some.inj hstore'
        have hstore : store = ⟨options, 0, 1, 0⟩ := hstore
        subst hstore
        exact ⟨rfl, rfl, rfl, rfl⟩

/-- The invariant holds after every run. -/
theorem store_invariant {env : FileEnv} {options : StoreOptions}
    (hok : (StoreSystem.reply {} (.open_ env options)).isOk) {events : List StoreEvent}
    (h : Runs.Along StoreSystem.next (fun sys event => StoreAssumed sys event ∧ Rotates sys event)
      (.initialized env options) events) {p : StoreSystem × StoreLedger}
    (hp : Runs.exec (Runs.observe StoreSystem.next StoreLedger.note)
      (.initialized env options, {}) events = p) :
    ∃ pointer disk torn, StoreInv p.1 p.2 pointer disk torn := by
  have hstart : ∃ pointer disk torn,
      StoreInv (.initialized env options) {} pointer disk torn :=
    ⟨_, _, _, initialized_holds hok⟩
  rw [← hp]
  refine Runs.invariant (I := fun p : StoreSystem × StoreLedger =>
    ∃ pointer disk torn, StoreInv p.1 p.2 pointer disk torn) ?_ hstart (h.observe StoreLedger.note {})
  rintro ⟨sys, ledger⟩ event ⟨_, _, _, hinv⟩ ⟨hassumed, hrotates⟩
  exact (hinv.next hassumed hrotates).1

/-- In every run of an initialized store whose snapshots have numbers for their files, an open
recovers the published snapshot and exactly the acknowledged records, or also the one in flight,
wherever the processes before it have stopped. -/
theorem store_recovers {env : FileEnv} {options : StoreOptions}
    (hok : (StoreSystem.reply {} (.open_ env options)).isOk) {events : List StoreEvent}
    (h : Runs.Along StoreSystem.next (fun sys event => StoreAssumed sys event ∧ Rotates sys event)
      (.initialized env options) events) :
    Runs.Along (Runs.observe StoreSystem.next StoreLedger.note) StoreRecovered
      (.initialized env options, {}) events := by
  have hstart : ∃ pointer disk torn,
      StoreInv (.initialized env options) {} pointer disk torn :=
    ⟨_, _, _, initialized_holds hok⟩
  refine Runs.Along.of_invariant (I := fun p : StoreSystem × StoreLedger =>
    ∃ pointer disk torn, StoreInv p.1 p.2 pointer disk torn) ?_ hstart (h.observe StoreLedger.note {})
  rintro ⟨sys, ledger⟩ event ⟨_, _, _, hinv⟩ ⟨hassumed, hrotates⟩
  exact hinv.next hassumed hrotates

namespace Sample

/-- A process of a number, on a file system that does not fail. -/
def process (process_id : UInt64) : FileEnv := { process_id := process_id }

/-- A record is committed. -/
def commits (process_id : UInt64) (payload : String) : StoreEvent :=
  .call (.commit (process process_id) .startupMarker (bytesOf payload))

/-- Two records and a snapshot between them, a third record that is cut off, and an open that stops
before it has repaired the log. -/
def interrupted : List StoreEvent :=
  [commits 1 "first", .call (.writeSnapshot (process 1) (bytesOf "snapshot")), commits 1 "second",
    .crash (.commit (process 1) .startupMarker (bytesOf "third")) 0 (some 30),
    .crash (.open_ (process 2) {}) 3 (some 10), .call (.open_ (process 3) {}), commits 3 "fourth"]

end Sample

/-- A run with interrupted calls. -/
theorem store_recovers_interrupted :
    Runs.Along (Runs.observe StoreSystem.next StoreLedger.note) StoreRecovered
      (.initialized (Sample.process 1) {}, {}) Sample.interrupted :=
  store_recovers (by decide +kernel) (by decide +kernel)

/-! ## When the numbers of the files are used up -/

/-- What is left after a number of snapshots: the numbers of the files have wrapped around with the
words that hold them. -/
structure Rotated (n : ℕ) (sys : StoreSystem) : Prop where
  store : sys.store = some ⟨{}, 0, UInt64.ofNat (n + 1), UInt64.ofNat n⟩
  current : sys.dir.read currentPath =
    some (encodeCurrent ⟨UInt64.ofNat n, UInt64.ofNat (n + 1)⟩)

/-- A snapshot of nothing. -/
def Sample.snapshot : StoreEvent := .call (.writeSnapshot (Sample.process 1) [])

/-- One more snapshot is written. -/
theorem Rotated.next {n : ℕ} {sys : StoreSystem} (h : Rotated n sys) :
    StoreAssumed sys Sample.snapshot ∧ Rotated (n + 1) (sys.next Sample.snapshot) := by
  have hsucc : ∀ n, UInt64.ofNat n + 1 = UInt64.ofNat (n + 1) := fun n => by
    rw [UInt64.ofNat_add, UInt64.ofNat_one]
  obtain ⟨store', taken, hwrite⟩ := @writeSnapshot_faultless (Sample.process 1) rfl
    ⟨{}, 0, UInt64.ofNat (n + 1), UInt64.ofNat n⟩ [] (by decide) sys.dir
  obtain ⟨-, hstore', after, hafter, hsteps⟩ := writeSnapshot_of_ok hwrite
  simp only [hsucc] at hstore' hafter
  have hperform : sys.perform (.writeSnapshot (Sample.process 1) []) =
      (.ok .done, some store', taken) := by
    simp only [StoreSystem.perform, h.store, hwrite]
    rfl
  refine ⟨⟨?_, by decide⟩, ?_⟩
  · rw [StoreSystem.reply_eq hperform]
    rfl
  · rw [Sample.snapshot, StoreSystem.next_call_eq hperform]
    refine ⟨by rw [hstore'], ?_⟩
    show (run sys.dir taken).read currentPath = _
    rw [hsteps, run_append, read_run _ (hafter currentPath (by simp [activePaths])), publishSteps,
      run_append, run_append, read_atomicSteps]
    simp only [hsucc]

/-- Any number of snapshots is written. -/
theorem rotated_replicate {sys : StoreSystem} (h : Rotated 0 sys) (n : ℕ) :
    Runs.Along StoreSystem.next StoreAssumed sys (List.replicate n Sample.snapshot) ∧
      Rotated n (Runs.exec StoreSystem.next sys (List.replicate n Sample.snapshot)) := by
  induction n with
  | zero => exact ⟨trivial, h⟩
  | succ n ih =>
    obtain ⟨hassumed, hrotated⟩ := ih
    obtain ⟨hnext, hlast⟩ := hrotated.next
    rw [List.replicate_succ', Runs.exec_append]
    exact ⟨hassumed.append ⟨hnext, trivial⟩, hlast⟩

/-- A pointer that names the log segment of number zero is not read back, so no process opens the
store any more. -/
theorem open_refused_of_wrapped {sys : StoreSystem} {snapshot : SnapshotSequence}
    (h : sys.dir.read currentPath = some (encodeCurrent ⟨snapshot, 0⟩)) (env : FileEnv)
    (options : StoreOptions) (opened : FileStore × FileRecovery) :
    (FileStore.open_ env options sys.dir).1 ≠ .ok opened := by
  intro hok
  obtain ⟨before, later, hacquire, hunder, -⟩ := open_of_ok (Prod.ext hok rfl)
  have hcurrent := (read_run sys.dir
    (spares_of_acquireLock hacquire ⟨0, 1⟩ currentPath (by simp [activePaths]))).trans h
  unfold FileStore.openLocked fileExists at hunder
  rw [look_pure_bind, hcurrent] at hunder
  obtain ⟨pointer, _, _, hpointer, -, -⟩ := of_bind_ok hunder
  have hread : (readFile currentPath 4096 (run sys.dir before) >>= decodeCurrent) = .ok pointer :=
    (Prod.mk.inj hpointer).1
  have hlength := length_encodeCurrent_le ⟨snapshot, 0⟩
  unfold readFile at hread
  rw [hcurrent] at hread
  simp only at hread
  rw [if_neg (by omega)] at hread
  have hdecode : decodeCurrent (encodeCurrent ⟨snapshot, 0⟩) = .ok pointer := hread
  rw [decodeCurrent_encode, if_pos rfl] at hdecode
  simp [fail] at hdecode

/-- Some process may take over any lock. -/
theorem exists_checkLock (dir : StoreDir) :
    ∃ process_id, (checkLock (Sample.process process_id) dir).isOk := by
  cases hread : (readFile lockPath 64 dir).toOption with
  | none => exact ⟨0, by simp [checkLock, hread, require, Except.isOk, Except.toBool]⟩
  | some existing =>
    cases howner : lockOwner existing with
    | none => exact ⟨0, by simp [checkLock, hread, howner, require, Except.isOk, Except.toBool]⟩
    | some owner =>
      have hdead : processIsAlive (Sample.process (owner + 1)) owner = false := by
        have hne : owner ≠ owner + 1 := (add_one_ne owner).symm
        simp [processIsAlive, Sample.process, hne]
      refine ⟨owner + 1, ?_⟩
      simp [checkLock, hread, howner, hdead, require, Except.isOk, Except.toBool]

/-- Nothing stops the number of the log segment from wrapping around to zero, and the pointer that
names it is refused. -/
theorem store_not_recovered :
    ¬ ∀ (env : FileEnv) (options : StoreOptions) (events : List StoreEvent),
      (StoreSystem.reply {} (.open_ env options)).isOk →
        Runs.Along StoreSystem.next StoreAssumed (.initialized env options) events →
          Runs.Along (Runs.observe StoreSystem.next StoreLedger.note) StoreRecovered
            (.initialized env options, {}) events := by
  intro hall
  have hok : (StoreSystem.reply {} (.open_ (Sample.process 1) {})).isOk := by decide +kernel
  have hstart : Rotated 0 (.initialized (Sample.process 1) {}) := ⟨by decide +kernel, by decide +kernel⟩
  obtain ⟨n, hn⟩ : ∃ n, UInt64.ofNat (n + 1) = 0 := ⟨2 ^ 64 - 1, by decide⟩
  obtain ⟨hsnapshots, hrotated⟩ := rotated_replicate hstart n
  generalize hevents : List.replicate n Sample.snapshot = snapshots at hsnapshots hrotated
  generalize hsys : Runs.exec StoreSystem.next (.initialized (Sample.process 1) {}) snapshots = sys
    at hrotated
  have hwrapped : sys.dir.read currentPath = some (encodeCurrent ⟨UInt64.ofNat n, 0⟩) := by
    rw [hrotated.current, hn]
  -- the process stops before the first step of a commit
  have hstopped : sys.next (.crash (.commit (Sample.process 1) .startupMarker []) 0 none) =
      ⟨sys.dir, none⟩ := by
    simp [StoreSystem.next, crashed]
  obtain ⟨process_id, hlock⟩ := exists_checkLock sys.dir
  have hcan : CanOpen sys.dir (Sample.process process_id) {} := by
    refine ⟨rfl, rfl, by decide, hlock, ?_⟩
    have hnone : activeLog sys.dir = none := by
      simp [activeLog, hwrapped, decodeCurrent_encode, fail, Except.toOption]
    simp [hnone]
  have hassumed : Runs.Along StoreSystem.next StoreAssumed (.initialized (Sample.process 1) {})
      (snapshots ++ [.crash (.commit (Sample.process 1) .startupMarker []) 0 none,
        .call (.open_ (Sample.process process_id) {})]) := by
    refine hsnapshots.append ?_
    rw [hsys]
    refine ⟨rfl, ?_, trivial⟩
    rw [hstopped]
    exact hcan
  have hlast := (hall _ _ _ hok hassumed).append_right
  obtain ⟨-, ⟨-, hrecovered⟩, -⟩ := hlast
  generalize hp : Runs.exec (Runs.observe StoreSystem.next StoreLedger.note)
    (StoreSystem.initialized (Sample.process 1) {}, {}) snapshots = p at hrecovered
  have hfirst : p.1 = sys := by
    rw [← hp, Runs.exec_observe, hsys]
  simp only [Runs.observe, hfirst, hstopped] at hrecovered
  obtain ⟨store, recovery, hopened, -⟩ := hrecovered trivial
  exact open_refused_of_wrapped hwrapped _ _ _ hopened

end Fcfn
