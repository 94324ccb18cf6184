import Fcfn.Runtime.Described
import Fcfn.Runtime.Planning

/-!
# Epochs

An incarnation takes the epoch after the highest one that its store describes, and records it before
it is open. No record of the log lowers the epoch that a replay reaches, and a snapshot saves the epoch
of the incarnation that writes it, so what a store describes is never below an epoch that was taken
(`EpochsTold`), whatever the process that took it has come to. -/

namespace Fcfn

open Words Stateful RuntimeState DurableStore Tables

/-! ## Replay -/

/-- No record lowers the epoch. -/
theorem ReplayedFrame.epoch_le {s s' : RuntimeState} {frame : Frame} (h : ReplayedFrame s frame s') :
    s.epoch ≤ s'.epoch := by
  cases h with
  | topology => split <;> exact UInt64.le_refl _
  | policy => split <;> exact UInt64.le_refl _
  | attempt =>
    unfold replayAttempt
    split
    · exact UInt64.le_refl _
    · split <;> exact UInt64.le_refl _
  | epoch =>
    split
    · rename_i hlater
      exact UInt64.le_of_lt hlater
    · exact UInt64.le_refl _
  | _ => exact UInt64.le_refl _

/-- Replaying a log does not lower the epoch. -/
theorem replay_epoch_le {log : List Frame} {s s' : RuntimeState}
    (h : log.foldlM applyReplayedFrame s = .ok s') : s.epoch ≤ s'.epoch :=
  replay_induction (P := fun s' => s.epoch ≤ s'.epoch)
    (fun _ _ _ _ hframe hle => UInt64.le_trans hle hframe.epoch_le) h (UInt64.le_refl _)

/-- The record of an epoch brings a replay to it. -/
theorem replay_epochAdvance_le {s s' : RuntimeState} {sequence : Sequence} {epoch : CoordinatorEpoch}
    {boot : BootIdentity}
    (h : applyReplayedFrame s ⟨.epochAdvance, sequence, encodeEpochAdvance epoch boot⟩ = .ok s') :
    epoch ≤ s'.epoch := by
  unfold applyReplayedFrame at h
  simp only [decodeEpochAdvance_encode, require] at h
  split at h
  · simp only [bind_eq_ok, pure_eq_ok] at h
    obtain ⟨decoded, hdecoded, rfl⟩ := h
    obtain rfl := Except.ok.inj hdecoded
    split
    · exact UInt64.le_refl _
    · rename_i hlater
      exact UInt64.not_lt.mp hlater
  · exact absurd h (by simp [fail, bind, Except.bind, Except.map])

/-- Replaying the records of a startup that was completed brings the replay to its epoch. -/
theorem StartupLog.epoch_le {s s₀ s₁ : RuntimeState} {added : List Frame}
    (h : StartupLog s true added) (hreplay : added.foldlM applyReplayedFrame s₀ = .ok s₁) :
    s.epoch ≤ s₁.epoch := by
  cases h with
  | fenced quiet sequence sequence' =>
    rw [List.foldlM_append] at hreplay
    obtain ⟨before, -, hreplay⟩ := bind_eq_ok.mp hreplay
    rw [List.foldlM_cons] at hreplay
    obtain ⟨advanced, hadvanced, hreplay⟩ := bind_eq_ok.mp hreplay
    exact UInt64.le_trans (replay_epochAdvance_le hadvanced) (replay_epoch_le hreplay)

/-! ## What is told -/

/-- Every state that the store describes has reached the epochs. -/
def EpochsTold (disk : Disk) (epochs : List CoordinatorEpoch) : Prop :=
  ∀ s, Describes disk s → ∀ epoch ∈ epochs, epoch ≤ s.epoch

/-- Records that are appended leave what is told. -/
theorem EpochsTold.append {disk disk' : Disk} {epochs : List CoordinatorEpoch} {added : List Frame}
    (h : EpochsTold disk epochs) (hsnapshot : disk'.snapshot = disk.snapshot)
    (hlog : disk'.log = disk.log ++ added) : EpochsTold disk' epochs := by
  intro s' hs' epoch hepoch
  obtain ⟨s, hs, hreplay⟩ := hs'.append hsnapshot hlog
  exact UInt64.le_trans (h s hs epoch hepoch) (replay_epoch_le hreplay)

/-- Files with the same snapshot and the same records tell the same. -/
theorem EpochsTold.congr {disk disk' : Disk} {epochs : List CoordinatorEpoch}
    (h : EpochsTold disk epochs) (hsnapshot : disk'.snapshot = disk.snapshot)
    (hlog : disk'.log = disk.log) : EpochsTold disk' epochs :=
  h.append hsnapshot (hlog.trans (List.append_nil _).symm)

/-- A snapshot tells the epoch of the state that it saves. -/
theorem epochsTold_saved {s : RuntimeState} {epochs : List CoordinatorEpoch} {sequence : Sequence}
    (h : ∀ epoch ∈ epochs, epoch ≤ s.epoch)
    (hfits : (encodeDurableState s.durable).length ≤ kMaxSnapshotPayloadBytes) :
    EpochsTold ⟨some (sequence, encodeDurableState s.durable), [], 0⟩ epochs := by
  intro s' hs' epoch hepoch
  obtain ⟨config, store, topology, policy, evidence, boundary, -, -, -, -, rfl⟩ :=
    describes_saved rfl rfl hfits hs'
  exact h epoch hepoch

/-- A call of a state that has reached the epochs leaves them told. -/
theorem EpochsTold.call {env : Env} {s s' : RuntimeState} {call : Call} {reply : Result Reply}
    {store store' : DurableStore} {epochs : List CoordinatorEpoch} (h : EpochsTold store.disk epochs)
    (hlive : ∀ epoch ∈ epochs, epoch ≤ s.epoch) (ho : Outcome env s call reply s')
    (hstore : s.store = some store) (hstore' : s'.store = some store') :
    EpochsTold store'.disk epochs := by
  rcases ho.grown with hgrown | ⟨-, before, after, hbefore, hafter, hsaved⟩
  · rw [hstore, hstore'] at hgrown
    obtain ⟨hsnapshot, -, added, hlog, -⟩ := hgrown.disk
    exact h.append hsnapshot hlog
  · obtain rfl : store = before := Option.some.inj (hstore.symm.trans hbefore)
    obtain rfl : store' = after := Option.some.inj (hstore'.symm.trans hafter)
    rcases hsaved with rfl | ⟨rfl, hfits⟩
    · exact h
    · exact epochsTold_saved hlive hfits

/-! ## Runs -/

/-- The authority vector that a reply carries. -/
def Reply.authority : Result Reply → Option AuthorityVector
  | .ok (.authorization record) => some record.authority
  | .ok (.plan computed) => some computed.authority
  | _ => none

/-- What durable incarnations have had: their epochs, in the order in which they were opened, and the
authority vectors of those before the live one and of the live one. -/
structure Reigns where
  epochs : List CoordinatorEpoch := []
  earlier : List AuthorityVector := []
  current : List AuthorityVector := []

/-- Note the state of a durable runtime that was opened. -/
def Reigns.opened (reigns : Reigns) (s : RuntimeState) : Reigns :=
  if s.store.isSome then
    { reigns with epochs := reigns.epochs ++ [s.epoch], current := [s.currentAuthority] }
  else reigns

/-- Note what an incident leads to: the epoch of a durable runtime that was opened, the authority of
the live one and what it hands out. -/
def noteReigns (sys : System) (incident : Incident) (reigns : Reigns) : Reigns :=
  match incident with
  | .event (.open_ config env boot) =>
    if sys.runtime.isNone then
      (sys.next (.open_ config env boot)).runtime.elim reigns reigns.opened
    else reigns
  | .event (.call env call) =>
    (sys.next (.call env call)).runtime.elim reigns fun s =>
      if s.store.isSome then
        { reigns with current := reigns.current ++ s.currentAuthority ::
            (Reply.authority (sys.reply (.call env call))).toList }
      else reigns
  | .event (.crash _) => { reigns with earlier := reigns.earlier ++ reigns.current, current := [] }
  | .openStops _ _ _ _ => reigns

/-- The epochs of the incarnations increase, and no authority vector of an earlier one carries the
epoch of the live one. -/
structure EpochsIncrease (p : System × Reigns) : Prop where
  increasing : p.2.epochs.Pairwise (· < ·)
  outdated : ∀ s ∈ p.1.runtime, s.store.isSome → ∀ vector ∈ p.2.earlier, vector.epoch ≠ s.epoch

/-- An open finds an epoch below the limit of 64 bits. -/
def EpochBelowLimit (sys : System) : Incident → Prop
  | .event (.open_ config _ _) => sys.runtime = none → ∀ s ∈ (recover config sys.disk).1.toOption,
    s.store.isSome → s.epoch < s.epoch + 1
  | .event (.call _ _) | .event (.crash _) | .openStops _ _ _ _ => True

instance EpochBelowLimit.instDecidable (sys : System) : (incident : Incident) →
    Decidable (EpochBelowLimit sys incident)
  | .event (.open_ config _ _) =>
    have : Decidable (∀ s ∈ (recover config sys.disk).1.toOption,
      s.store.isSome → s.epoch < s.epoch + 1) := Option.decidableForallMem _
    inferInstanceAs (Decidable (sys.runtime = none → ∀ s ∈ (recover config sys.disk).1.toOption,
      s.store.isSome → s.epoch < s.epoch + 1))
  | .event (.call _ _) | .event (.crash _) | .openStops _ _ _ _ => inferInstanceAs (Decidable True)

/-- What keeps the epochs apart. -/
structure ReignsApart (p : System × Reigns) : Prop where
  sequenced : Sequenced p.1
  increasing : p.2.epochs.Pairwise (· < ·)
  told : EpochsTold p.1.disk p.2.epochs
  /-- Every vector carries the epoch of an incarnation. -/
  noted : ∀ vector ∈ p.2.earlier ++ p.2.current, vector.epoch ∈ p.2.epochs
  /-- The live incarnation has reached every epoch, and those before it have not reached its own. -/
  live : ∀ s ∈ p.1.runtime, s.store.isSome → s.epoch ∈ p.2.epochs ∧
    (∀ epoch ∈ p.2.epochs, epoch ≤ s.epoch) ∧ ∀ vector ∈ p.2.earlier, vector.epoch < s.epoch
  closed : p.1.durable = false → p.2.current = []

/-- The authority vector of a reply is of the epoch of the state. -/
theorem Outcome.authority_epoch {env : Env} {s s' : RuntimeState} {call : Call}
    {reply : Result Reply} (h : Outcome env s call reply s') :
    ∀ vector ∈ Reply.authority reply, vector.epoch = s.epoch := by
  intro vector hvector
  cases h with
  | authorization =>
    obtain rfl := Option.some.inj hvector
    rfl
  | planned _ _ computed =>
    obtain rfl := Option.some.inj hvector
    rw [(nextPlan_origin computed).1.authority]
    rfl
  | _ => exact absurd hvector (by simp [Reply.authority])

/-- Opening a store keeps the epochs apart. -/
theorem ReignsApart.open_ {sys : System} {reigns : Reigns} (h : ReignsApart (sys, reigns))
    {config : RuntimeConfig} {env : Env} {boot : BootIdentity}
    (hbelow : EpochBelowLimit sys (.event (.open_ config env boot))) :
    ReignsApart (sys.next (.open_ config env boot),
      noteReigns sys (.event (.open_ config env boot)) reigns) := by
  have hsequenced := h.sequenced.next (.open_ config env boot)
  show ReignsApart (_, if sys.runtime.isNone then _ else _)
  cases hrun : sys.runtime with
  | some s =>
    rw [next_open_live hrun]
    exact h
  | none =>
    have hcurrent : reigns.current = [] := h.closed (by simp [System.durable, hrun])
    rw [Option.isNone_none, if_pos rfl]
    rw [next_open hrun] at hsequenced ⊢
    obtain ⟨hsnapshot, hwrites⟩ := @openRuntime_writes config env boot sys.disk h.sequenced.inOrder
    generalize openRuntime config env boot sys.disk = result at *
    obtain ⟨outcome, disk⟩ := result
    rcases hwrites with ⟨hlog, hvolatile⟩ |
      ⟨s₀, disk₀, added, hrecover, hdurable, hdescribed, hadded, hlog, hstarted⟩
    · have htold : EpochsTold disk reigns.epochs :=
        h.told.congr hsnapshot hlog
      cases outcome with
      | error status =>
        exact ⟨hsequenced, h.increasing, htold, h.noted, fun s hs => absurd hs (by simp [Except.toOption]),
          fun _ => hcurrent⟩
      | ok s =>
        have hnone : s.store = none := hvolatile s rfl
        show ReignsApart (_, reigns.opened s)
        unfold Reigns.opened
        rw [if_neg (by simp [hnone])]
        refine ⟨hsequenced, h.increasing, htold, h.noted, fun s' hs' hdurable' => ?_,
          fun _ => hcurrent⟩
        obtain rfl := Option.some.inj hs'
        exact absurd hdurable' (by simp [hnone])
    · have htold : EpochsTold disk reigns.epochs := h.told.append hsnapshot hlog
      cases outcome with
      | error status =>
        exact ⟨hsequenced, h.increasing, htold, h.noted, fun s hs => absurd hs (by simp [Except.toOption]),
          fun _ => hcurrent⟩
      | ok s =>
        have hsame := (hstarted s rfl).same
        have hstore : s.store.isSome := hsame.isSome.trans hdurable
        have hepoch : s.epoch = s₀.epoch + 1 := hsame.epoch
        -- the epoch does not wrap around, so the new one is later than all that the files tell
        have hnext : s₀.epoch < s.epoch := by
          rw [hepoch]
          exact hbelow hrun s₀ (mem_toOption.mpr (by rw [hrecover])) hdurable
        have hlater : ∀ epoch ∈ reigns.epochs, epoch < s.epoch := fun epoch hmem =>
          UInt64.lt_of_le_of_lt (h.told s₀ hdescribed epoch hmem) hnext
        show ReignsApart (_, reigns.opened s)
        unfold Reigns.opened
        rw [if_pos hstore]
        refine ⟨hsequenced, ?_, ?_, ?_, ?_, fun hclosed => ?_⟩
        · refine List.pairwise_append.mpr ⟨h.increasing, List.pairwise_singleton _ _, ?_⟩
          intro epoch hmem last hlast
          rw [List.mem_singleton.mp hlast]
          exact hlater epoch hmem
        · intro s' hs' epoch hmem
          -- the record of the advance is among those that any later open reads
          rcases List.mem_append.mp hmem with hold | hnew
          · exact htold s' hs' epoch hold
          · obtain ⟨before, -, hreplay⟩ := hs'.append hsnapshot hlog
            rw [List.mem_singleton.mp hnew, hepoch]
            exact hadded.epoch_le hreplay
        · intro vector hvector
          refine List.mem_append.mpr ?_
          rcases List.mem_append.mp hvector with hold | hnew
          · exact Or.inl (h.noted vector (List.mem_append_left _ hold))
          · rw [List.mem_singleton.mp hnew]
            exact Or.inr (List.mem_singleton.mpr rfl)
        · intro s' hs' _
          obtain rfl := Option.some.inj hs'
          refine ⟨by simp, fun epoch hmem => ?_, fun vector hvector => ?_⟩
          · rcases List.mem_append.mp hmem with hold | hnew
            · exact UInt64.le_of_lt (hlater epoch hold)
            · rw [List.mem_singleton.mp hnew]
              exact UInt64.le_refl _
          · exact hlater _ (h.noted vector (List.mem_append_left _ hvector))
        · exact absurd hclosed (by simp [System.durable, Except.toOption, hstore])

/-- A call keeps the epochs apart. -/
theorem ReignsApart.call {sys : System} {reigns : Reigns} (h : ReignsApart (sys, reigns)) (env : Env)
    (call : Call) : ReignsApart (sys.next (.call env call),
      noteReigns sys (.event (.call env call)) reigns) := by
  have hsequenced := h.sequenced.next (.call env call)
  show ReignsApart (_, (sys.next (.call env call)).runtime.elim _ _)
  cases hrun : sys.runtime with
  | none =>
    rw [next_call_closed hrun, hrun]
    exact h
  | some s =>
    have ho := perform_outcome env s call
    have hepoch := ho.incarnation.1
    have hreply := ho.authority_epoch
    have hnext := runtime_call hrun env call
    rw [hnext, Option.elim_some, reply_call hrun]
    rcases h.sequenced.synced.calls hrun env call with ⟨hstore, hnone, hfiles⟩ |
      ⟨store, store', hstore, hdisk, hstore', hfiles, -⟩
    · rw [if_neg (by simp [hnone])]
      refine ⟨hsequenced, h.increasing, hfiles ▸ h.told, h.noted, fun t ht hdurable => ?_,
        fun _ => h.closed (by simp [System.durable, hrun, hstore])⟩
      obtain rfl := Option.some.inj (hnext.symm.trans ht)
      exact absurd hdurable (by simp [hnone])
    -- a call neither changes the epoch nor takes a record of it away
    · obtain ⟨hmem, hreached, houtdated⟩ := h.live s hrun (by simp [hstore])
      have htold : EpochsTold store.disk reigns.epochs := hdisk ▸ h.told
      rw [if_pos (by simp [hstore'])]
      refine ⟨hsequenced, h.increasing, hfiles ▸ htold.call hreached ho hstore hstore', ?_, ?_,
        fun hclosed => absurd hclosed (by simp [System.durable, hnext, hstore'])⟩
      · intro vector hvector
        rcases List.mem_append.mp hvector with hold | hnew
        · exact h.noted vector (List.mem_append_left _ hold)
        rcases List.mem_append.mp hnew with hold | hnew
        · exact h.noted vector (List.mem_append_right _ hold)
        rcases List.mem_cons.mp hnew with rfl | hnew
        · rw [show (exec (perform env call) s).2.currentAuthority.epoch = s.epoch from hepoch]
          exact hmem
        · rw [hreply vector (Option.mem_toList.mp hnew)]
          exact hmem
      · intro t ht _
        obtain rfl := Option.some.inj (hnext.symm.trans ht)
        rw [hepoch]
        exact ⟨hmem, hreached, houtdated⟩

/-- A process that stops keeps the epochs apart. -/
theorem ReignsApart.crash {sys : System} {reigns : Reigns} (h : ReignsApart (sys, reigns))
    (torn_bytes : ℕ) : ReignsApart (sys.next (.crash torn_bytes),
      noteReigns sys (.event (.crash torn_bytes)) reigns) := by
  have hsequenced := h.sequenced.next (.crash torn_bytes)
  have htold : EpochsTold (sys.diskAfterCrash torn_bytes) reigns.epochs :=
    h.told.congr (diskAfterCrash_snapshot sys torn_bytes) (diskAfterCrash_log sys torn_bytes)
  rw [next_crash] at hsequenced ⊢
  refine ⟨hsequenced, h.increasing, htold, ?_, fun s hs => absurd hs (by simp), fun _ => rfl⟩
  intro vector hvector
  exact h.noted vector (by simpa [noteReigns] using hvector)

/-- A process that stops in the middle of an open keeps the epochs apart. -/
theorem ReignsApart.openStops {sys : System} {reigns : Reigns} (h : ReignsApart (sys, reigns))
    (config : RuntimeConfig) (env : Env) (boot : BootIdentity) (torn_bytes : ℕ) :
    ReignsApart (sys.suffer (.openStops config env boot torn_bytes), reigns) := by
  have hsequenced := h.sequenced.suffer (.openStops config env boot torn_bytes)
  by_cases hopens : sys.runtime.isNone ∧ config.persist = true
  · rw [suffer_openStops hopens] at hsequenced ⊢
    obtain ⟨hsnapshot, hwrites⟩ := @openRuntime_writes config env boot sys.disk h.sequenced.inOrder
    have htold : EpochsTold (openRuntime config env boot sys.disk).2 reigns.epochs := by
      rcases hwrites with ⟨hlog, -⟩ | ⟨-, -, added, -, -, -, -, hlog, -⟩
      · exact h.told.congr hsnapshot hlog
      · exact h.told.append hsnapshot hlog
    exact ⟨hsequenced, h.increasing, htold.congr rfl rfl, h.noted, fun s hs => absurd hs (by simp),
      fun _ => h.closed (by simp [System.durable, Option.isNone_iff_eq_none.mp hopens.1])⟩
  · rw [suffer_openStops_live hopens]
    exact h

/-- Every incident keeps the epochs apart. -/
theorem ReignsApart.step {p : System × Reigns} {incident : Incident} (h : ReignsApart p)
    (hbelow : EpochBelowLimit p.1 incident) :
    ReignsApart (Runs.observe System.suffer noteReigns p incident) := by
  obtain ⟨sys, reigns⟩ := p
  cases incident with
  | openStops config env boot torn_bytes => exact h.openStops config env boot torn_bytes
  | event event =>
    cases event with
    | open_ config env boot => exact h.open_ hbelow
    | call env call => exact h.call env call
    | crash torn_bytes => exact h.crash torn_bytes

/-- After every run of a durable store, in which processes may stop anywhere, the epochs of the
incarnations that were opened increase, and authority vectors of earlier ones are outdated. -/
theorem epochs_increase {incidents : List Incident}
    (h : Runs.Along System.suffer EpochBelowLimit {} incidents) :
    EpochsIncrease (Runs.exec (Runs.observe System.suffer noteReigns) ({}, {}) incidents) := by
  have hstart : ReignsApart ({}, {}) :=
    ⟨.start, List.Pairwise.nil, fun _ _ => by simp, by simp, fun s hs => absurd hs (by simp),
      fun _ => rfl⟩
  have hend := Runs.invariant (I := ReignsApart) (fun _ _ hapart hbelow => hapart.step hbelow) hstart
    (h.observe noteReigns {})
  exact ⟨hend.increasing, fun s hs hdurable vector hvector =>
    UInt64.ne_of_lt ((hend.live s hs hdurable).2.2 vector hvector)⟩

/-- The second open stops after it has recorded its epoch, and a third one takes the next. -/
theorem epochs_increase_stopped :
    EpochsIncrease (Runs.exec (Runs.observe System.suffer noteReigns) ({}, {})
      [.event (Sample.opens 1), .event (Sample.does .checkpoint), .event (.crash 0),
        .openStops Sample.config { Sample.env with append_fails := fun sequence => sequence == 7 }
          (Sample.boot 2) 7,
        .event (Sample.opens 3), .event (Sample.does .authorize), .event (.crash 5),
        .event (Sample.opens 4)]) :=
  epochs_increase (by decide +kernel)

end Fcfn
