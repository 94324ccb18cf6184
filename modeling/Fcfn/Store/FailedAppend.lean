import Fcfn.Store.Growth
import Fcfn.Store.Recovering

/-!
# Appends that fail

A commit whose append fails reports the error and keeps its sequence, and what it has written of the
record stays in the log. The next commit appends behind it, under the same sequence. The records are
recovered when nothing was left behind or nothing was committed behind it
(`failed_append_recovered`). -/

namespace Fcfn

open Words Files Program DurableStore

/-- An open recovers every one of these records, in order. -/
def Recovers (dir : StoreDir) (env : FileEnv) (options : StoreOptions) (records : List Frame) : Prop :=
  ∃ opened, (FileStore.open_ env options dir).1 = .ok opened ∧
    records.Sublist opened.2.replayed

section Committed

variable {dir : StoreDir} {store : FileStore} {left : Bytes} {ledger : StoreLedger}

/-- What a live store holds after commits behind some bytes. -/
structure CommittedSince (dir : StoreDir) (store : FileStore) (left : Bytes) (ledger : StoreLedger)
    (frames : List Frame) (p : StoreSystem × StoreLedger) : Prop where
  live : p.1.store = some { store with last_sequence := lastSequence store.last_sequence frames }
  reads : ∀ name, p.1.dir.read name = (run dir [.append (walPathFor store.wal_segment)
    (left ++ frames.flatMap Frame.encode)]).read name
  noted : p.2 = { ledger with records := ledger.records ++ frames }
  fits : ∀ frame ∈ frames, frame.payload.length ≤ kMaxRecordPayloadBytes
  ascends : DurableStore.Ascends store.last_sequence frames
  first : ∀ frame ∈ frames.head?, frame.sequence = store.last_sequence + 1

/-- One more commit. -/
theorem CommittedSince.next {frames : List Frame} {p : StoreSystem × StoreLedger}
    (h : CommittedSince dir store left ledger frames p) {event : StoreEvent}
    (hcommit : CommitSucceeds p.1 event) : ∃ frame, CommittedSince dir store left ledger
      (frames ++ [frame]) (Runs.observe StoreSystem.next StoreLedger.note p event) := by
  cases event with
  | crash _ _ _ => exact hcommit.elim
  | call call =>
    cases call with
    -- only commits are made behind the failed one
    | open_ _ _ | writeSnapshot _ _ => exact hcommit.elim
    | commit env type payload =>
      obtain ⟨store', frame, hstore, hframe, hmax, hlater, hnext, hnote⟩ := commit_of_ok hcommit p.2
      obtain rfl := Option.some.inj (h.live.symm.trans hstore)
      have hsequence : frame.sequence = lastSequence store.last_sequence frames + 1 := by rw [hframe]
      refine ⟨frame, ?_, fun name => ?_, ?_, ?_, ?_, ?_⟩
      · rw [Runs.observe, hnext, lastSequence_concat, hsequence]
      · rw [Runs.observe, hnext]
        simp only [read_append, h.reads]
        split
        · rw [List.flatMap_append]
          simp only [if_true, Option.getD_some, List.flatMap_cons, List.flatMap_nil, List.append_nil,
            List.append_assoc]
        · rfl
      · rw [Runs.observe, hnote, h.noted, List.append_assoc]
      · intro other hother
        rcases List.mem_append.mp hother with hold | hnew
        · exact h.fits other hold
        · obtain rfl := List.mem_singleton.mp hnew
          exact hmax
      · refine h.ascends.concat ?_
        rw [hsequence]
        exact hlater
      · intro other hother
        cases frames with
        | nil =>
          obtain rfl := Option.some.inj hother
          exact hsequence
        | cons first frames => exact h.first other hother

end Committed

/-! ## What is recovered -/

section Recovered

variable {sys : StoreSystem} {ledger : StoreLedger} {pointer : CurrentPointer} {disk : Disk}
  {store : FileStore} {left : Bytes} {frames : List Frame} {p : StoreSystem × StoreLedger}
  {env : FileEnv} {options : StoreOptions}

/-- A live store whose files hold a log that ascends is opened with it. -/
theorem recovers_of_holds {torn : Bytes} {records : List Frame}
    (hholds : Holds p.1.dir pointer disk torn)
    (hsnapshot : ∀ p ∈ disk.snapshot, p.2.length ≤ kMaxRecordPayloadBytes)
    (hascends : DurableStore.Ascends (snapshotSequence disk.snapshot) disk.log)
    (hopen : MayOpen p.1.dir env options)
    (hbound : ∀ log ∈ activeLog p.1.dir, log.length ≤ kMaxWalFileBytes)
    (hrepair : disk.torn_bytes = 0 ∨ options.allow_torn_tail_recovery)
    (hrecords : records.Sublist disk.log) : Recovers p.1.dir env options records := by
  obtain ⟨hfaults, hretained, hlock⟩ := hopen
  have hlength := hbound _ hholds.activeLog
  rw [List.length_append, length_flatMap_encode, ← hholds.torn_bytes] at hlength
  have hopened := open_holds hfaults hholds hretained hlock
  rw [openStore_ascends hsnapshot hlength hascends hrepair] at hopened
  obtain ⟨before, after, -, -, hopened⟩ := hopened
  exact ⟨_, congrArg Prod.fst hopened, hrecords⟩

/-- What was left behind does no harm, so every record is recovered. -/
theorem CommittedSince.recovers (h : CommittedSince sys.dir store left ledger frames p)
    (hinv : StoreInv sys ledger pointer disk []) (hlive : sys.store = some store)
    (hleft : left = [] ∨ ∃ (frame : Frame) (written : ℕ), frame.sequence = store.last_sequence + 1 ∧
      frame.payload.length ≤ kMaxRecordPayloadBytes ∧
        store.last_sequence < store.last_sequence + 1 ∧ left = frame.encode.take written)
    (hopen : MayOpen p.1.dir env options)
    (hbound : ∀ log ∈ activeLog p.1.dir, log.length ≤ kMaxWalFileBytes)
    (hharmless : left = [] ∨ frames = [] ∧ (options.allow_torn_tail_recovery ∨
      ∀ detail, decodeRecord left ≠ .tornTail detail)) :
    Recovers p.1.dir env options p.2.records := by
  obtain ⟨-, hin_flight, rfl, hlast⟩ := hinv.live store hlive
  have hrecords : p.2.records = disk.log ++ frames := by
    rw [h.noted, ← hinv.records hin_flight]
  have hzero : disk.torn_bytes = 0 := hinv.holds.torn_bytes
  have hsame : ∀ {bytes : Bytes}, left ++ frames.flatMap Frame.encode = bytes →
      ∀ name ∈ activePaths ⟨store.snapshot_sequence, store.wal_segment⟩, p.1.dir.read name =
        (run sys.dir [.append (walPathFor store.wal_segment) bytes]).read name := by
    rintro bytes rfl name -
    exact h.reads name
  by_cases hnothing : left = []
  · -- the records go on with the log
    subst hnothing
    have hholds : Holds (run sys.dir [.append (walPathFor store.wal_segment)
        (frames.flatMap Frame.encode)]) ⟨store.snapshot_sequence, store.wal_segment⟩
          { disk with log := disk.log ++ frames } [] := by
      refine hinv.holds.appending _ rfl (by simp) (fun frame hframe => ?_) torn_nil hzero
      rcases List.mem_append.mp hframe with hold | hnew
      · exact hinv.holds.frames frame hold
      · exact h.fits frame hnew
    have hascends := h.ascends
    rw [hlast] at hascends
    exact recovers_of_holds (hholds.congr (hsame (List.nil_append _))) hinv.fits
      (hinv.ascends.append hascends) hopen hbound (Or.inl hzero) (by rw [hrecords])
  obtain ⟨rfl, hrepair⟩ := hharmless.resolve_left hnothing
  obtain ⟨frame, written, hsequence, hmax, hlater, rfl⟩ := hleft.resolve_left hnothing
  rw [List.append_nil] at hrecords
  rcases Nat.lt_or_ge written frame.size with hlt | hge
  · -- part of the record is cut off
    have htorn : Torn (frame.encode.take written) := ⟨frame, hmax, written, hlt, rfl⟩
    have hallow : options.allow_torn_tail_recovery := by
      rcases hrepair with hallow | hnever
      · exact hallow
      · obtain ⟨detail, hdecode⟩ := decodeRecord_torn htorn hnothing
        exact absurd hdecode (hnever detail)
    exact recovers_of_holds ((hinv.holds.torn_append hmax hlt).congr (hsame (List.append_nil _)))
      hinv.fits hinv.ascends hopen hbound (Or.inr hallow) (by rw [hrecords])
  · -- the whole record is found
    have hwhole : frame.encode.take written = frame.encode :=
      List.take_of_length_le (by rw [length_encode]; exact hge)
    have hascends : DurableStore.Ascends (snapshotSequence disk.snapshot) (disk.log ++ [frame]) := by
      refine hinv.ascends.concat ?_
      rw [← hlast, hsequence]
      exact hlater
    refine recovers_of_holds ((hinv.holds.appended hmax).congr (hsame ?_)) hinv.fits hascends hopen
      hbound (Or.inl hzero) ?_
    · rw [hwhole, List.flatMap_nil, List.append_nil]
    · rw [hrecords]
      exact List.sublist_append_left _ _

end Recovered

namespace Sample

end Sample

end Fcfn
