import Fcfn.Store.Crashes

/-!
# Growth of the log

A commit bounds the record that it appends, and the reader bounds the segment that it reads. What
commits have acknowledged is read back exactly when the segment has not outgrown the bound of the
reader (`log_replayed_iff`), and nothing stops it from growing further. -/

namespace Fcfn

open Words Files DurableStore

/-- An event is a commit that succeeds. -/
def CommitSucceeds (sys : StoreSystem) : StoreEvent → Prop
  | .call (.commit env type payload) => (sys.reply (.commit env type payload)).isOk
  | _ => False

instance (sys : StoreSystem) : (event : StoreEvent) → Decidable (CommitSucceeds sys event)
  | .call (.commit env type payload) =>
    inferInstanceAs (Decidable ((sys.reply (.commit env type payload)).isOk = true))
  | .call (.open_ _ _) | .call (.writeSnapshot _ _) | .crash _ _ _ => isFalse id

/-- A process may open a store: its file system does not fail, its options are in range, and the lock
names no live process. -/
def MayOpen (dir : StoreDir) (env : FileEnv) (options : StoreOptions) : Prop :=
  env.faults = [] ∧ (1 ≤ options.retained_snapshots ∧
    options.retained_snapshots ≤ kMaxRetainedSnapshots) ∧ (checkLock env dir).isOk

instance (dir : StoreDir) (env : FileEnv) (options : StoreOptions) :
    Decidable (MayOpen dir env options) :=
  inferInstanceAs (Decidable (_ ∧ _ ∧ _))

/-- An open replays exactly these records. -/
def Replays (dir : StoreDir) (env : FileEnv) (options : StoreOptions) (records : List Frame) : Prop :=
  ∃ opened, (FileStore.open_ env options dir).1 = .ok opened ∧ opened.2.replayed = records

/-- The files of a live store are read back when the log is within the bound of the reader. -/
theorem StoreInv.replays_iff {sys : StoreSystem} {ledger : StoreLedger} {pointer : CurrentPointer}
    {disk : Disk} {torn : Bytes} (h : StoreInv sys ledger pointer disk torn)
    (hlive : sys.store.isSome) {env : FileEnv} {options : StoreOptions}
    (hopen : MayOpen sys.dir env options) :
    Replays sys.dir env options ledger.records ↔
      (ledger.records.map Frame.size).sum ≤ kMaxWalFileBytes := by
  obtain ⟨store, hstore⟩ := Option.isSome_iff_exists.mp hlive
  obtain ⟨rfl, hnone, -, -⟩ := h.live store hstore
  have hlog : disk.log = ledger.records := by
    rcases h.log with hlog | ⟨frame, hframe, -⟩
    · exact hlog
    · rw [hnone] at hframe
      exact absurd hframe (by simp)
  have hzero : disk.torn_bytes = 0 := h.holds.torn_bytes
  obtain ⟨hfaults, hretained, hlock⟩ := hopen
  have hopened := open_holds hfaults h.holds hretained hlock
  rw [← hlog]
  constructor
  · rintro ⟨opened, hok, -⟩
    by_contra hgrown
    have hrefused : ∃ status, DurableStore.openStore disk options.allow_torn_tail_recovery = .error status := by
      rw [openStore_eq]
      cases readSnapshot disk with
      | error status => exact ⟨status, rfl⟩
      | ok read =>
        simp only
        rw [if_pos (by omega)]
        exact ⟨_, rfl⟩
    obtain ⟨status, hrefused⟩ := hrefused
    rw [hrefused] at hopened
    rw [hopened] at hok
    simp at hok
  · intro hfits
    rw [openStore_ascends h.fits (by omega) h.ascends (Or.inl hzero)] at hopened
    obtain ⟨before, after, -, -, hopened⟩ := hopened
    exact ⟨_, congrArg Prod.fst hopened, rfl⟩

/-- Successful commits are among what the recovery of a store assumes. -/
theorem CommitSucceeds.assumed {sys : StoreSystem} {event : StoreEvent}
    (h : CommitSucceeds sys event) : StoreAssumed sys event ∧ Rotates sys event := by
  cases event with
  | crash _ _ _ => exact h.elim
  | call call =>
    cases call with
    | open_ _ _ | writeSnapshot _ _ => exact h.elim
    | commit env type payload => exact ⟨h, trivial⟩

/-- Successful commits leave a live store. -/
theorem CommitSucceeds.live {sys : StoreSystem} {event : StoreEvent} (h : CommitSucceeds sys event) :
    (sys.next event).store.isSome = true := by
  cases event with
  | crash _ _ _ => exact h.elim
  | call call =>
    cases call with
    | open_ _ _ | writeSnapshot _ _ => exact h.elim
    | commit env type payload =>
      obtain ⟨_, _, -, -, -, -, hnext, -⟩ := commit_of_ok h {}
      rw [hnext]
      rfl

/-- After any run of a store, what was acknowledged since the last snapshot, and any number of
further commits, is replayed by the next open if and only if it fits in what the reader takes of a
log segment. -/
theorem log_replayed_iff {env : FileEnv} {options : StoreOptions}
    (hok : (StoreSystem.reply {} (.open_ env options)).isOk) {events commits : List StoreEvent}
    (h : Runs.Along StoreSystem.next (fun sys event => StoreAssumed sys event ∧ Rotates sys event)
      (.initialized env options) events)
    (hlive : (Runs.exec StoreSystem.next (.initialized env options) events).store.isSome)
    (hcommits : Runs.Along StoreSystem.next CommitSucceeds
      (Runs.exec StoreSystem.next (.initialized env options) events) commits)
    {p : StoreSystem × StoreLedger}
    (hp : Runs.exec (Runs.observe StoreSystem.next StoreLedger.note)
      (.initialized env options, {}) (events ++ commits) = p)
    {env' : FileEnv} {options' : StoreOptions} (hopen : MayOpen p.1.dir env' options') :
    Replays p.1.dir env' options' p.2.records ↔
      (p.2.records.map Frame.size).sum ≤ kMaxWalFileBytes := by
  have hassumed := h.append (hcommits.mono fun _ _ => CommitSucceeds.assumed)
  obtain ⟨pointer, disk, torn, hinv⟩ := store_invariant hok hassumed hp
  have hlast : p.1 = Runs.exec StoreSystem.next
      (Runs.exec StoreSystem.next (.initialized env options) events) commits := by
    rw [← hp, Runs.exec_observe, Runs.exec_append]
  have hstays : p.1.store.isSome := by
    rw [hlast]
    exact @Runs.invariant _ _ StoreSystem.next CommitSucceeds (fun sys => sys.store.isSome = true)
      (fun _ _ _ hcommit => hcommit.live) _ hlive _ hcommits
  exact hinv.replays_iff hstays hopen

/-- Three records. -/
def Sample.three : List StoreEvent :=
  [Sample.commits 1 "first", Sample.commits 1 "second", Sample.commits 1 "third"]

/-- What an initialized store and its ledger hold after some events. -/
def Sample.after (events : List StoreEvent) : StoreSystem × StoreLedger :=
  Runs.exec (Runs.observe StoreSystem.next StoreLedger.note)
    (.initialized (Sample.process 1) {}, {}) events

/-- Three records are replayed. -/
theorem log_replayed_iff_three :
    Replays (Sample.after Sample.three).1.dir (Sample.process 2) {}
        (Sample.after Sample.three).2.records ↔
      ((Sample.after Sample.three).2.records.map Frame.size).sum ≤ kMaxWalFileBytes :=
  @log_replayed_iff (Sample.process 1) {} (by decide +kernel) [] Sample.three trivial
    (by decide +kernel) (by decide +kernel) (Sample.after Sample.three) rfl (Sample.process 2) {}
      (by decide +kernel)

/-! ## A log that has outgrown its reader -/

/-- A fresh store after a number of commits without a payload. -/
structure Grown (n : ℕ) (p : StoreSystem × StoreLedger) : Prop where
  store : p.1.store = some ⟨{}, UInt64.ofNat n, 1, 0⟩
  records : (p.2.records.map Frame.size).sum = kRecordHeaderBytes * n

/-- A commit without a payload. -/
def Sample.marker : StoreEvent := .call (.commit (Sample.process 1) .startupMarker [])

/-- One more commit succeeds as long as there are sequences. -/
theorem Grown.next {n : ℕ} {p : StoreSystem × StoreLedger} (h : Grown n p) (hn : n + 1 < 2 ^ 64) :
    CommitSucceeds p.1 Sample.marker ∧
      Grown (n + 1) (Runs.observe StoreSystem.next StoreLedger.note p Sample.marker) := by
  have hsucc : UInt64.ofNat n + 1 = UInt64.ofNat (n + 1) := by
    rw [UInt64.ofNat_add, UInt64.ofNat_one]
  have hlater : UInt64.ofNat n < UInt64.ofNat n + 1 := by
    rw [hsucc, UInt64.lt_iff_toNat_lt, UInt64.toNat_ofNat', UInt64.toNat_ofNat',
      Nat.mod_eq_of_lt (by omega), Nat.mod_eq_of_lt hn]
    exact Nat.lt_succ_self n
  have hok : (p.1.reply (.commit (Sample.process 1) .startupMarker [])).isOk := by
    rcases @commit_cases (Sample.process 1) ⟨{}, UInt64.ofNat n, 1, 0⟩ .startupMarker [] _ rfl p.1.dir
      with ⟨-, hrefused⟩ | ⟨-, -, hcommit⟩
    · exact absurd ⟨by decide, hlater⟩ hrefused
    · simp only [StoreSystem.reply, StoreSystem.perform, h.store, hcommit]
      rfl
  refine ⟨hok, ?_⟩
  obtain ⟨store, frame, hstore, hframe, -, -, hnext, hnote⟩ := commit_of_ok hok p.2
  obtain rfl := Option.some.inj (h.store.symm.trans hstore)
  refine ⟨?_, ?_⟩
  · rw [Runs.observe, Sample.marker, hnext, ← hsucc]
  · rw [Runs.observe, Sample.marker, hnote]
    simp only [List.map_append, List.sum_append, h.records, hframe, Frame.size, List.map_cons,
      List.map_nil, List.sum_cons, List.sum_nil, List.length_nil]
    exact (Nat.mul_succ kRecordHeaderBytes n).symm

/-- Any number of commits that there are sequences for. -/
theorem grown_replicate {p : StoreSystem × StoreLedger} (h : Grown 0 p) {n : ℕ} (hn : n < 2 ^ 64) :
    Runs.Along StoreSystem.next CommitSucceeds p.1 (List.replicate n Sample.marker) ∧
      Grown n (Runs.exec (Runs.observe StoreSystem.next StoreLedger.note) p
        (List.replicate n Sample.marker)) := by
  induction n with
  | zero => exact ⟨trivial, h⟩
  | succ n ih =>
    obtain ⟨hcommits, hgrown⟩ := ih (by omega)
    obtain ⟨hcommit, hnext⟩ := hgrown.next hn
    rw [List.replicate_succ', Runs.exec_append]
    refine ⟨hcommits.append ⟨?_, trivial⟩, hnext⟩
    rwa [← Runs.exec_observe StoreLedger.note p.1 p.2]

/-- Commits without a payload outgrow what the reader takes, and the store is not opened again. -/
theorem log_outgrown :
    ¬ ∀ (env : FileEnv) (options : StoreOptions) (commits : List StoreEvent),
      (StoreSystem.reply {} (.open_ env options)).isOk →
        Runs.Along StoreSystem.next CommitSucceeds (.initialized env options) commits →
          ∀ p, Runs.exec (Runs.observe StoreSystem.next StoreLedger.note)
              (.initialized env options, {}) commits = p →
            ∀ env' options', MayOpen p.1.dir env' options' →
              Replays p.1.dir env' options' p.2.records := by
  intro hall
  have hok : (StoreSystem.reply {} (.open_ (Sample.process 1) {})).isOk := by decide +kernel
  have hstart : Grown 0 (.initialized (Sample.process 1) {}, {}) := ⟨by decide +kernel, rfl⟩
  obtain ⟨n, hn, hbound⟩ : ∃ n, n < 2 ^ 64 ∧ kMaxWalFileBytes < kRecordHeaderBytes * n :=
    ⟨2 ^ 32, by decide, by decide⟩
  obtain ⟨hcommits, hgrown⟩ := grown_replicate hstart hn
  generalize List.replicate n Sample.marker = commits at hcommits hgrown
  generalize hp : Runs.exec (Runs.observe StoreSystem.next StoreLedger.note)
    (StoreSystem.initialized (Sample.process 1) {}, {}) commits = p at hgrown
  have hassumed := hcommits.mono fun _ _ => CommitSucceeds.assumed
  obtain ⟨pointer, disk, torn, hinv⟩ := store_invariant hok hassumed hp
  obtain ⟨process_id, hlock⟩ := exists_checkLock p.1.dir
  have hopen : MayOpen p.1.dir (Sample.process process_id) {} := ⟨rfl, by decide, hlock⟩
  have hfits := (hinv.replays_iff (by rw [hgrown.store]; rfl) hopen).mp
    (hall _ _ _ hok hcommits p hp _ _ hopen)
  rw [hgrown.records] at hfits
  omega

end Fcfn
