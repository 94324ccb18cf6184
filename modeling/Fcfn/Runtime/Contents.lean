import Fcfn.Runtime.Replay

/-!
# What a store holds

A property of the live runtime often needs one of the records of its store and of the states that
its snapshots save, because a later incarnation is built from them. `Contents` is such a triple of
properties, and `Contents.Kept` lists what each part of the runtime has to do for it: startups
commit records with the property, recovery turns them into a state with it, calls keep it and write
it. `Contents.Holds.next` is then the step lemma of every such invariant. -/

namespace Fcfn

open Words Stateful RuntimeState DurableStore Tables

/-- A property of the live runtime, of the records of a store and of the states it has saved. -/
structure Contents where
  live : RuntimeState → Prop
  record : RecordType → Bytes → Prop
  saved : DurableState → Prop

namespace Contents

/-- The records and the snapshot of a store have the properties. -/
structure OnDisk (c : Contents) (disk : Disk) : Prop where
  log : ∀ frame ∈ disk.log, c.record frame.type frame.payload
  snapshot : ∀ sequence payload, disk.snapshot = some (sequence, payload) →
    ∃ state, payload = encodeDurableState state ∧ c.saved state

/-- The system has the properties, in its files and in its live runtime. -/
structure Holds (c : Contents) (sys : System) : Prop where
  synced : Synced sys
  disk : c.OnDisk sys.disk
  live : ∀ s ∈ sys.runtime, c.live s

/-- What the runtime does to the properties, when its calls meet a condition. -/
structure Kept (c : Contents) (P : RuntimeState → Env → Call → Prop) : Prop where
  startup : ∀ type payload, type.atStartup → c.record type payload
  initial : ∀ config store sequence,
    c.live { RuntimeState.initial config with store := store, sequence := sequence }
  restored : ∀ s state topology policy evidence boundary, c.saved state →
    decodePart ContainmentBoundary.decode state.boundary_bytes = .ok boundary → c.live s →
    c.live (s.withDurable state topology policy evidence boundary)
  replayed : ∀ s frame s', c.record frame.type frame.payload → ReplayedFrame s frame s' →
    c.live s → c.live s'
  begun : ∀ s boot s', c.live s → Started (RuntimeState.incarnate s boot) s' → c.live s'
  called : ∀ env s call s', c.live s → P s env call →
    Outcome env s call (exec (perform env call) s).1 s' → c.live s'
  recorded : ∀ env s call type payload, c.live s → s.store.isSome → P s env call →
    CallRecord env s (exec (perform env call) s).1 call type payload →
    payload.length ≤ kMaxRecordPayloadBytes → c.record type payload
  checkpointed : ∀ s, c.live s → s.store.isSome → c.saved s.durable

variable {c : Contents} {P : RuntimeState → Env → Call → Prop}

/-- Records with the property keep it on the disk. -/
theorem OnDisk.grown {store store' : DurableStore} (h : c.OnDisk store.disk)
    (hgrown : Grown c.record (some store) (some store')) : c.OnDisk store'.disk := by
  obtain ⟨hsnapshot, -, added, hlog, hadded⟩ := hgrown.disk
  refine ⟨fun frame hf => ?_, fun sequence payload hs => ?_⟩
  · rw [hlog] at hf
    rcases List.mem_append.mp hf with hf | hf
    · exact h.log frame hf
    · exact hadded frame hf
  · rw [hsnapshot] at hs
    exact h.snapshot sequence payload hs

/-- What a store with the properties describes has the property. -/
theorem Kept.recovered (hk : c.Kept P) {disk disk' : Disk} {config : RuntimeConfig}
    {s : RuntimeState} (hdisk : c.OnDisk disk) (h : recover config disk = (.ok s, disk')) :
    c.live s := by
  rcases recover_ok h with ⟨-, recovery, hopen, hrestore, -⟩ | ⟨-, rfl, -⟩
  · have hspec := openStore_spec hopen
    obtain ⟨s₀, hfrom, hreplay⟩ := restore_ok hrestore
    have hbase : c.live (baseState config recovery.store) := hk.initial config _ _
    refine replay_induction (fun s frame s' hf => hk.replayed s frame s'
      (hdisk.log frame (hspec.replayed frame hf))) hreplay ?_
    rw [restoreFrom] at hfrom
    split at hfrom
    · exact Except.ok.inj hfrom ▸ hbase
    · rename_i hne
      obtain ⟨restored, topology, policy, evidence, boundary, hdecoded, -, -, -, hboundary, rfl⟩ :=
        restoreSnapshot_ok hfrom
      rcases hspec.payload with ⟨-, hempty⟩ | ⟨sequence, hsome⟩
      · exact absurd hempty hne
      · obtain ⟨state, hpayload, hsaved⟩ := hdisk.snapshot _ _ hsome
        have hfits : (encodeDurableState state).length < 2 ^ 32 := by
          rw [← hpayload]
          exact lt_of_le_of_lt hspec.fits (by decide)
        rw [hpayload] at hdecoded
        obtain rfl := decodeDurableState_recovers hfits hdecoded
        exact hk.restored _ _ _ _ _ _ hsaved hboundary hbase
  · exact hk.initial config none 0

/-- Opening a store keeps the properties. -/
theorem Holds.open_ (hk : c.Kept P) {sys : System} (h : c.Holds sys) (config : RuntimeConfig)
    (env : Env) (boot : BootIdentity) : c.Holds (sys.next (.open_ config env boot)) := by
  have hsynced := h.synced.next (.open_ config env boot)
  cases hrun : sys.runtime with
  | some s =>
    rw [next_open_live hrun]
    exact h
  | none =>
    rw [next_open hrun] at hsynced ⊢
    refine ⟨hsynced, ?_, fun s hs => ?_⟩
    · rcases openRuntime_disk config env boot sys.disk with ⟨hsame, -⟩ | ⟨recovery, store, -, hopen,
        hgrown, hdisk, -⟩
      · rw [hsame]
        exact h.disk
      · rw [hdisk]
        have hspec := openStore_spec hopen
        have hrecovered : c.OnDisk recovery.store.disk :=
          ⟨fun frame hf => h.disk.log frame (hspec.log ▸ hf), fun sequence payload hs =>
            h.disk.snapshot sequence payload (hspec.snapshot ▸ hs)⟩
        exact hrecovered.grown (hgrown.mono fun type payload h _ => hk.startup type payload h)
    · have hok := mem_toOption.mp hs
      obtain ⟨s₀, disk₀, hrecover, hstarted, -⟩ := openRuntime_ok (Prod.ext hok rfl)
      exact hk.begun s₀ boot s (hk.recovered h.disk hrecover) hstarted

/-- A call that meets the condition keeps the properties. -/
theorem Holds.call (hk : c.Kept P) {sys : System} (h : c.Holds sys) {env : Env} {call : Call}
    (hp : OnCall P sys (.call env call)) : c.Holds (sys.next (.call env call)) := by
  have hsynced := h.synced.next (.call env call)
  cases hrun : sys.runtime with
  | none =>
    rw [next_call_closed hrun]
    exact h
  | some s =>
    have hlive := h.live s hrun
    have hcondition := hp s hrun
    refine ⟨hsynced, ?_, fun t ht => ?_⟩
    · rcases h.synced.calls hrun env call with ⟨-, -, hfiles⟩ |
        ⟨store, store', hstore, hdisk, -, hfiles, hgrown⟩
      · exact hfiles ▸ h.disk
      · have hdurable : s.store.isSome := by simp [hstore]
        have hondisk : c.OnDisk store.disk := hdisk ▸ h.disk
        rw [hfiles]
        rcases hgrown with hgrown | ⟨-, rfl | ⟨rfl, -⟩⟩
        · exact hondisk.grown (hgrown.mono fun type payload =>
            hk.recorded env s call type payload hlive hdurable hcondition)
        · exact hondisk
        · refine ⟨by simp, fun sequence payload hs => ?_⟩
          obtain ⟨-, rfl⟩ := Prod.mk.inj (Option.some.inj hs)
          exact ⟨s.durable, rfl, hk.checkpointed s hlive hdurable⟩
    · obtain rfl := Option.some.inj ((runtime_call hrun env call).symm.trans ht)
      exact hk.called env s call _ hlive hcondition (perform_outcome env s call)

/-- A process that stops keeps the properties. -/
theorem Holds.crash {sys : System} (h : c.Holds sys) (torn_bytes : ℕ) :
    c.Holds (sys.next (.crash torn_bytes)) := by
  have hsynced := h.synced.next (.crash torn_bytes)
  rw [next_crash] at hsynced ⊢
  refine ⟨hsynced, ?_, fun s hs => absurd hs (by simp)⟩
  unfold System.diskAfterCrash
  split
  · exact ⟨h.disk.log, h.disk.snapshot⟩
  · exact h.disk

/-- Every step whose calls meet the condition keeps the properties. -/
theorem Holds.next (hk : c.Kept P) {sys : System} (h : c.Holds sys) {event : Event}
    (hp : OnCall P sys event) : c.Holds (sys.next event) := by
  cases event with
  | open_ config env boot => exact h.open_ hk config env boot
  | call env call => exact h.call hk hp
  | crash torn_bytes => exact h.crash torn_bytes

/-- A system without files and without a runtime has the properties. -/
theorem Holds.start : c.Holds {} :=
  ⟨fun s hs => absurd hs (by simp), ⟨by simp, fun sequence payload hs => absurd hs (by simp)⟩,
    fun s hs => absurd hs (by simp)⟩

end Contents

/-! ## What every attempt has -/

/-- Whether a record holds an attempt. -/
def RecordType.OfAttempt (type : RecordType) : Prop :=
  type = .applyAttempt ∨ type = .applyAcknowledgement ∨ type = .effectVerification

instance RecordType.OfAttempt.instDecidable (type : RecordType) : Decidable type.OfAttempt :=
  inferInstanceAs (Decidable (_ ∨ _))

/-- The version of an attempt that a call puts in the table, and in its record. -/
inductive Writes (env : Env) (s : RuntimeState) : Call → ApplyAttempt → Prop
  | submitted {id : AuthorizationId} {generation : PlanGeneration} {plan_digest : Digest}
      {plan : ContainmentPlan} (checked : s.checkSubmit generation plan_digest = .ok plan) :
    Writes env s (.submitApply id generation plan_digest)
      (s.countAttempt.newAttempt plan env.later_millis)
  | acknowledged {ack : ApplyAcknowledgement} {attempt : ApplyAttempt} (attempt' : ApplyAttempt)
      (checked : s.checkAcknowledgement ack = .ok attempt)
      (taken : attempt' = attempt.mismatched ∨ attempt' = attempt.acknowledged ack env.now_millis) :
    Writes env s (.acknowledge ack) attempt'
  | verified {report : EffectVerification} {attempt : ApplyAttempt}
      (checked : s.checkVerification report = .ok attempt) :
    Writes env s (.verifyEffect report) (attempt.observed report env.now_millis)

/-- An attempt in the table after a call was there, or the call wrote it. -/
theorem Outcome.mem_attempts {env : Env} {s s' : RuntimeState} {call : Call} {reply : Result Reply}
    (h : Outcome env s call reply s') {attempt : ApplyAttempt} (hmem : attempt ∈ s'.attempts) :
    attempt ∈ s.attempts ∨ Writes env s call attempt := by
  have hafter := h.attempts
  generalize s'.attempts = attempts at hmem hafter
  cases hafter with
  | same => exact Or.inl hmem
  | evicted _ bound => exact Or.inl (mem_of_mem_dropExcess hmem)
  | submitted checked =>
    rcases List.mem_append.mp (mem_of_mem_dropExcess hmem) with hold | hnew
    · exact Or.inl hold
    · obtain rfl := List.mem_singleton.mp hnew
      exact Or.inr (.submitted checked)
  | acknowledged attempt' checked taken =>
    rcases mem_updateFirst hmem with hold | ⟨-, -, rfl⟩
    · exact Or.inl hold
    · exact Or.inr (.acknowledged attempt checked taken)
  | verified checked =>
    rcases mem_updateFirst hmem with hold | ⟨-, -, rfl⟩
    · exact Or.inl hold
    · exact Or.inr (.verified checked)

/-- The attempts of the live runtime and of its store have a property. -/
def attemptsWith (P : ApplyAttempt → Prop) : Contents where
  live s := ∀ attempt ∈ s.attempts, P attempt
  record type payload := type.OfAttempt → ∃ attempt : ApplyAttempt,
    payload = encodeAttempt attempt ∧ payload.length ≤ kMaxRecordPayloadBytes ∧ P attempt
  saved state := ∀ attempt ∈ state.attempts, P attempt

/-- A property that fencing keeps and that the calls give what they write is one of all attempts. -/
theorem attemptsWith_kept {P : ApplyAttempt → Prop} {Q : RuntimeState → Env → Call → Prop}
    (hfence : ∀ attempt, P attempt → P (fenceAttempt attempt))
    (hwrites : ∀ env s call attempt, (∀ a ∈ s.attempts, P a) → Q s env call →
      Writes env s call attempt → P attempt) : (attemptsWith P).Kept Q where
  startup := by
    rintro type payload (rfl | rfl | rfl | rfl) hattempt <;>
      exact absurd hattempt (by simp [RecordType.OfAttempt])
  initial := by
    intro config store sequence a ha
    exact absurd ha (by simp [RuntimeState.initial])
  restored := by
    intro s state topology policy evidence boundary hsaved _ _
    exact hsaved
  replayed := by
    intro s frame s' hrecord hframe h
    cases hframe with
    | attempt type decoded =>
      -- the record is decoded to the attempt it was written for
      obtain ⟨written, hpayload, hfits, hp⟩ := hrecord type
      rw [hpayload] at decoded hfits
      obtain rfl := decodeAttempt_recovers (lt_of_le_of_lt hfits (by decide)) decoded
      intro a ha
      unfold replayAttempt at ha
      split at ha
      · rcases List.mem_append.mp ha with hold | hnew
        · exact h a hold
        · exact List.mem_singleton.mp hnew ▸ hp
      · split at ha
        · rcases mem_updateFirst ha with hold | ⟨-, -, rfl⟩
          · exact h a hold
          · exact hp
        · exact h a ha
    | topology => split <;> exact h
    | policy => split <;> exact h
    | epoch => split <;> exact h
    | _ => exact h
  begun := by
    intro s boot s' h hstarted a ha
    rw [hstarted.same.attempts] at ha
    obtain ⟨before, hbefore, rfl⟩ := List.mem_map.mp (mem_of_mem_dropExcess ha)
    exact hfence before (h before hbefore)
  called := by
    intro env s call s' h hq ho a ha
    rcases ho.mem_attempts ha with hold | hnew
    · exact h a hold
    · exact hwrites env s call a h hq hnew
  recorded := by
    intro env s call type payload h _ hq hrecord hfits hattempt
    cases hrecord with
    | submitted checked =>
      exact ⟨_, rfl, hfits, hwrites env s _ _ h hq (.submitted checked)⟩
    | acknowledged attempt' checked taken =>
      exact ⟨_, rfl, hfits, hwrites env s _ _ h hq (.acknowledged attempt' checked taken)⟩
    | verified checked => exact ⟨_, rfl, hfits, hwrites env s _ _ h hq (.verified checked)⟩
    | _ => exact absurd hattempt (by simp [RecordType.OfAttempt])
  checkpointed := fun s h _ => h

end Fcfn
