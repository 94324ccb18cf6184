import Fcfn.Runtime.Attempts

/-!
# What recovery restores

A recovered state is the snapshot's with the later records replayed. `ReplayedFrame` lists what one
record does, and `replay_induction` carries a property over all of them. What the runtime writes in
turn is listed by `CallRecord` and `Outcome.grown`. -/

namespace Fcfn

open Words Stateful RuntimeState DurableStore Tables

/-! ## One record -/

/-- What one record does to the state. -/
inductive ReplayedFrame (s : RuntimeState) (frame : Frame) : RuntimeState → Prop
  | topology {t : Topology} (type : frame.type = .topologyDefinition)
      (decoded : Topology.decode frame.payload = .ok t) :
    ReplayedFrame s frame
      (if s.topology.all fun current => current.generation < t.generation then
        { s with topology := some t } else s)
  | policy {policy : ContainmentPolicy} (type : frame.type = .policyDefinition)
      (decoded : ContainmentPolicy.decode frame.payload = .ok policy) :
    ReplayedFrame s frame
      (if s.policy.generation < policy.generation then { s with policy := policy } else s)
  | detection {record : DetectionRecord}
      (type : frame.type = .detectionRecord ∨ frame.type = .evidenceReconfirmed)
      (decoded : decodeDetection frame.payload = .ok record) :
    ReplayedFrame s frame (s.replayDetection record)
  | plan {plan : ContainmentPlan} (type : frame.type = .planDecision)
      (decoded : ContainmentPlan.decode frame.payload = .ok plan) :
    ReplayedFrame s frame { s with plans := s.plans ++ [plan] }
  | boundary {decision : BoundaryDecision} (type : frame.type = .boundaryDecision)
      (decoded : decodeBoundaryDecision frame.payload = .ok decision) :
    ReplayedFrame s frame (s.replayBoundary decision)
  | transition {decision : TransitionDecision} (type : frame.type = .transitionDecision)
      (decoded : decodeTransition frame.payload = .ok decision) :
    ReplayedFrame s frame (s.replayTransition decision)
  | attempt {attempt : ApplyAttempt}
      (type : frame.type = .applyAttempt ∨ frame.type = .applyAcknowledgement ∨
        frame.type = .effectVerification)
      (decoded : decodeAttempt frame.payload = .ok attempt) :
    ReplayedFrame s frame (s.replayAttempt attempt)
  | epoch {epoch : CoordinatorEpoch} {boot : BootIdentity} (type : frame.type = .epochAdvance)
      (decoded : decodeEpochAdvance frame.payload = .ok (epoch, boot)) :
    ReplayedFrame s frame
      (if s.epoch < epoch then { s with epoch := epoch, last_known_boot := some boot } else s)
  | fence {boots : List BootId} (type : frame.type = .fence)
      (decoded : decodeFence frame.payload = .ok boots) :
    ReplayedFrame s frame { s with fenced_boots := boots.foldl fenceBoot s.fenced_boots }
  | other (type : frame.type = .authorizationIssued ∨ frame.type = .snapshotPayload ∨
      frame.type = .startupMarker ∨ frame.type = .shutdownMarker) : ReplayedFrame s frame s

/-- Replaying a record does what is listed for its type. -/
theorem applyReplayedFrame_ok {s s' : RuntimeState} {frame : Frame}
    (h : applyReplayedFrame s frame = .ok s') : ReplayedFrame s frame s' := by
  unfold applyReplayedFrame at h
  cases htype : frame.type with
  | topologyDefinition =>
    rw [htype] at h
    simp only [bind_eq_ok, pure_eq_ok] at h
    obtain ⟨t, hdecoded, rfl⟩ := h
    exact .topology htype hdecoded
  | policyDefinition =>
    rw [htype] at h
    simp only [bind_eq_ok, pure_eq_ok] at h
    obtain ⟨policy, hdecoded, rfl⟩ := h
    exact .policy htype hdecoded
  | detectionRecord =>
    rw [htype] at h
    simp only [bind_eq_ok, pure_eq_ok] at h
    obtain ⟨record, hdecoded, rfl⟩ := h
    exact .detection (Or.inl htype) hdecoded
  | evidenceReconfirmed =>
    rw [htype] at h
    simp only [bind_eq_ok, pure_eq_ok] at h
    obtain ⟨record, hdecoded, rfl⟩ := h
    exact .detection (Or.inr htype) hdecoded
  | planDecision =>
    rw [htype] at h
    simp only [bind_eq_ok, pure_eq_ok] at h
    obtain ⟨plan, hdecoded, rfl⟩ := h
    exact .plan htype hdecoded
  | boundaryDecision =>
    rw [htype] at h
    simp only [bind_eq_ok, pure_eq_ok] at h
    obtain ⟨decision, hdecoded, rfl⟩ := h
    exact .boundary htype hdecoded
  | transitionDecision =>
    rw [htype] at h
    simp only [bind_eq_ok, pure_eq_ok] at h
    obtain ⟨decision, hdecoded, rfl⟩ := h
    exact .transition htype hdecoded
  | applyAttempt | applyAcknowledgement | effectVerification =>
    rw [htype] at h
    simp only [bind_eq_ok, pure_eq_ok] at h
    obtain ⟨attempt, hdecoded, rfl⟩ := h
    exact .attempt (by simp [htype]) hdecoded
  | epochAdvance =>
    rw [htype] at h
    simp only [bind_eq_ok, pure_eq_ok] at h
    obtain ⟨⟨epoch, boot⟩, hdecoded, rfl⟩ := h
    exact .epoch htype hdecoded
  | fence =>
    rw [htype] at h
    simp only [bind_eq_ok, pure_eq_ok] at h
    obtain ⟨boots, hdecoded, rfl⟩ := h
    exact .fence htype hdecoded
  | authorizationIssued | snapshotPayload | startupMarker | shutdownMarker =>
    rw [htype] at h
    obtain rfl := Except.ok.inj h
    exact .other (by simp [htype])

/-- What every record keeps, replaying a log keeps. -/
theorem replay_induction {P : RuntimeState → Prop} {log : List Frame}
    (hstep : ∀ s frame s', frame ∈ log → ReplayedFrame s frame s' → P s → P s')
    {s s' : RuntimeState} (h : log.foldlM applyReplayedFrame s = .ok s') (hs : P s) : P s' := by
  induction log generalizing s with
  | nil =>
    rw [List.foldlM_nil, pure_eq_ok] at h
    exact h ▸ hs
  | cons frame log ih =>
    rw [List.foldlM_cons, bind_eq_ok] at h
    obtain ⟨s₁, hframe, hrest⟩ := h
    exact ih (fun s f s' hf => hstep s f s' (List.mem_cons_of_mem _ hf)) hrest
      (hstep s frame s₁ List.mem_cons_self (applyReplayedFrame_ok hframe) hs)

/-! ## Recovery -/

/-- A durable runtime is recovered from what its store holds, another starts from nothing. -/
theorem recover_ok {config : RuntimeConfig} {disk disk' : Disk} {s : RuntimeState}
    (h : recover config disk = (.ok s, disk')) :
    (config.persist = true ∧ ∃ recovery,
        openStore disk config.allow_torn_tail_recovery = .ok recovery ∧
          restore config recovery = .ok s ∧ disk' = recovery.store.disk) ∨
      (config.persist = false ∧ s = RuntimeState.initial config ∧ disk' = disk) := by
  unfold recover at h
  split at h
  · exact absurd (Prod.mk.inj h).1 (by simp)
  split at h
  · rename_i hpersist
    split at h
    · exact absurd (Prod.mk.inj h).1 (by simp)
    · rename_i recovery hopen
      obtain ⟨hrestore, rfl⟩ := Prod.mk.inj h
      exact Or.inl ⟨hpersist, recovery, hopen, hrestore, rfl⟩
  · rename_i hpersist
    obtain ⟨hs, rfl⟩ := Prod.mk.inj h
    exact Or.inr ⟨by simpa using hpersist, (Except.ok.inj hs).symm, rfl⟩

/-- The base that recovery starts from. -/
def baseState (config : RuntimeConfig) (store : DurableStore) : RuntimeState :=
  { RuntimeState.initial config with store := some store, sequence := store.last_sequence }

/-- What a store describes is its snapshot with the later records replayed. -/
theorem restore_ok {config : RuntimeConfig} {recovery : Recovery} {s : RuntimeState}
    (h : restore config recovery = .ok s) :
    ∃ s₀, restoreFrom (baseState config recovery.store) recovery.snapshot_payload = .ok s₀ ∧
      recovery.replayed.foldlM applyReplayedFrame s₀ = .ok s := by
  unfold restore at h
  exact bind_eq_ok.mp h

/-- What a snapshot holds is put into the state. -/
theorem restoreSnapshot_ok {s s' : RuntimeState} {payload : Bytes}
    (h : s.restoreSnapshot payload = .ok s') :
    ∃ restored topology policy evidence boundary,
      decodeDurableState payload = .ok restored ∧
      decodePart Topology.decode restored.topology_bytes = .ok topology ∧
      decodePart ContainmentPolicy.decode restored.policy_bytes = .ok policy ∧
      decodePart EvidenceVector.decode restored.evidence_bytes = .ok evidence ∧
      decodePart ContainmentBoundary.decode restored.boundary_bytes = .ok boundary ∧
      s' = s.withDurable restored topology policy evidence boundary := by
  unfold restoreSnapshot at h
  simp only [bind_eq_ok, pure_eq_ok] at h
  obtain ⟨restored, hrestored, topology, htopology, policy, hpolicy, evidence, hevidence, boundary,
    hboundary, rfl⟩ := h
  exact ⟨restored, topology, policy, evidence, boundary, hrestored, htopology, hpolicy, hevidence,
    hboundary, rfl⟩

/-- The durable state that the snapshot of a store holds: that of a new runtime when there is
none. -/
def savedState (disk : Disk) : Result DurableState :=
  match disk.snapshot with
  | none => .ok {}
  | some (_, payload) => if payload = [] then .ok {} else decodeDurableState payload

/-- The counters that recovery restores are those of the snapshot. -/
structure SameCounters (s : RuntimeState) (saved : DurableState) : Prop where
  plan : s.plan_counter = saved.plan_counter
  attempt : s.attempt_counter = saved.attempt_counter
  authorization : s.authorization_counter = saved.authorization_counter

/-- No record changes the counters of plans, attempts and authorizations. -/
theorem ReplayedFrame.counters {s s' : RuntimeState} {frame : Frame} {saved : DurableState}
    (h : ReplayedFrame s frame s') (hs : SameCounters s saved) : SameCounters s' saved := by
  obtain ⟨hplan, hattempt, hauthorization⟩ := hs
  cases h with
  | topology => split <;> exact ⟨hplan, hattempt, hauthorization⟩
  | policy => split <;> exact ⟨hplan, hattempt, hauthorization⟩
  | epoch => split <;> exact ⟨hplan, hattempt, hauthorization⟩
  | attempt =>
    unfold replayAttempt
    split
    · exact ⟨hplan, hattempt, hauthorization⟩
    · split <;> exact ⟨hplan, hattempt, hauthorization⟩
  | _ => exact ⟨hplan, hattempt, hauthorization⟩

/-- A durable runtime is recovered with the counters of the snapshot. -/
theorem recover_counters {config : RuntimeConfig} {disk disk' : Disk} {s : RuntimeState}
    (h : recover config disk = (.ok s, disk')) (hpersist : config.persist = true) :
    ∃ saved, savedState disk = .ok saved ∧ SameCounters s saved := by
  rcases recover_ok h with ⟨-, recovery, hopen, hrestore, -⟩ | ⟨hvolatile, -⟩
  · obtain ⟨s₀, hfrom, hreplay⟩ := restore_ok hrestore
    suffices hsaved : ∃ saved, savedState disk = .ok saved ∧ SameCounters s₀ saved by
      obtain ⟨saved, hstate, hcounters⟩ := hsaved
      exact ⟨saved, hstate, replay_induction (fun _ _ _ _ hframe hs => hframe.counters hs) hreplay
        hcounters⟩
    unfold restoreFrom at hfrom
    rcases (openStore_spec hopen).payload with ⟨hnone, hempty⟩ | ⟨sequence, hsome⟩
    · rw [if_pos hempty] at hfrom
      obtain rfl := Except.ok.inj hfrom
      exact ⟨{}, by rw [savedState, hnone], ⟨rfl, rfl, rfl⟩⟩
    · by_cases hempty : recovery.snapshot_payload = []
      · rw [if_pos hempty] at hfrom
        obtain rfl := Except.ok.inj hfrom
        exact ⟨{}, by rw [savedState, hsome]; exact if_pos hempty, ⟨rfl, rfl, rfl⟩⟩
      · rw [if_neg hempty] at hfrom
        obtain ⟨restored, -, -, -, -, hdecoded, -, -, -, -, rfl⟩ := restoreSnapshot_ok hfrom
        refine ⟨restored, ?_, ⟨rfl, rfl, rfl⟩⟩
        rw [savedState, hsome]
        exact (if_neg hempty).trans hdecoded
  · exact absurd hpersist (by simp [hvolatile])

/-! ## What is written -/

/-- A commit appends its record or leaves the store alone. -/
theorem moves_commit {P : RecordType → Bytes → Prop} {env : Env} {type : RecordType}
    {payload : Bytes} (h : P type payload) :
    Moves (fun s s' => Grown P s.store s'.store) (commit env type payload) := by
  intro s
  rcases exec_commit env type payload s with ⟨hc, hcommittable⟩ | ⟨⟨status, hc⟩, -⟩
  · rw [hc]
    unfold committed Committable at *
    cases hstore : s.store with
    | none => exact .refl _
    | some store =>
      obtain ⟨hfits, hadvances, -⟩ := hcommittable store hstore
      exact (Grown.refl _).append h hfits hadvances
  · rw [hc]
    exact .refl _

/-- The kinds of record that a startup commits. -/
def RecordType.atStartup (type : RecordType) : Prop :=
  type = .topologyDefinition ∨ type = .policyDefinition ∨ type = .epochAdvance ∨ type = .fence

instance isPreorder_grown (P : RecordType → Bytes → Prop) :
    IsPreorder RuntimeState fun s s' => Grown P s.store s'.store where
  refl _ := .refl _
  trans _ _ _ h h' := h.trans h'

/-- A startup commits startup records, whether it succeeds or not. -/
theorem moves_startup (env : Env) :
    Moves (fun s s' => Grown (fun type _ => type.atStartup) s.store s'.store) (startup env) := by
  have hmodify : ∀ f : RuntimeState → RuntimeState, (∀ s, (f s).store = s.store) →
      Moves (fun s s' => Grown (fun type _ => type.atStartup) s.store s'.store)
        (modify f : Op PUnit) :=
    fun f hf => Moves.modify fun s => by rw [hf]; exact .refl _
  refine Moves.bind ?_ fun _ => Moves.bind ?_ fun _ => hmodify _ fun _ => rfl
  · refine Moves.bind Moves.get fun s => ?_
    split
    · refine Moves.bind (Moves.lift _) fun t => Moves.bind (hmodify _ fun _ => rfl) fun _ => ?_
      split
      · exact moves_commit (Or.inl rfl)
      · exact Moves.pure _
    · exact Moves.pure _
  · refine Moves.bind Moves.get fun s => ?_
    split
    · refine Moves.bind (hmodify _ fun _ => rfl) fun _ => Moves.bind Moves.get fun s => ?_
      refine Moves.bind (moves_commit (by simp [RecordType.atStartup])) fun _ => ?_
      refine Moves.bind (moves_commit (by simp [RecordType.atStartup])) fun _ => ?_
      exact moves_commit (by simp [RecordType.atStartup])
    · exact Moves.pure _

/-- No record changes the configuration or the store. -/
theorem ReplayedFrame.store {s s' : RuntimeState} {frame : Frame} (h : ReplayedFrame s frame s') :
    s'.store = s.store ∧ s'.config = s.config := by
  cases h with
  | topology => split <;> exact ⟨rfl, rfl⟩
  | policy => split <;> exact ⟨rfl, rfl⟩
  | epoch => split <;> exact ⟨rfl, rfl⟩
  | attempt =>
    unfold replayAttempt
    split
    · exact ⟨rfl, rfl⟩
    · split <;> exact ⟨rfl, rfl⟩
  | _ => exact ⟨rfl, rfl⟩

/-- A state is restored over the store that was recovered. -/
theorem restore_store {config : RuntimeConfig} {recovery : Recovery} {s : RuntimeState}
    (h : restore config recovery = .ok s) : s.store = some recovery.store ∧ s.config = config := by
  obtain ⟨s₀, hfrom, hreplay⟩ := restore_ok h
  have hs₀ : s₀.store = some recovery.store ∧ s₀.config = config := by
    unfold restoreFrom at hfrom
    split at hfrom
    · obtain rfl := Except.ok.inj hfrom
      exact ⟨rfl, rfl⟩
    · obtain ⟨-, -, -, -, -, -, -, -, -, -, rfl⟩ := restoreSnapshot_ok hfrom
      exact ⟨rfl, rfl⟩
  exact replay_induction (P := fun s => s.store = some recovery.store ∧ s.config = config)
    (fun _ _ _ _ hframe hs => ⟨hframe.store.1.trans hs.1, hframe.store.2.trans hs.2⟩) hreplay hs₀

/-- What recovery does to the files: nothing, or it cuts off a partial record. -/
theorem recover_disk (config : RuntimeConfig) (disk : Disk) :
    ((recover config disk).2 = disk ∧ ∀ s, (recover config disk).1 = .ok s →
        config.persist = false ∧ s.store = none) ∨
      ∃ recovery, config.persist = true ∧
        openStore disk config.allow_torn_tail_recovery = .ok recovery ∧
        (recover config disk).2 = recovery.store.disk ∧
        ∀ s, (recover config disk).1 = .ok s → s.store = some recovery.store := by
  unfold recover
  split
  · exact Or.inl ⟨rfl, fun s hs => absurd hs (by simp)⟩
  split
  · rename_i hpersist
    split
    · exact Or.inl ⟨rfl, fun s hs => absurd hs (by simp)⟩
    · rename_i recovery hopen
      exact Or.inr ⟨recovery, hpersist, hopen, rfl, fun s hs => (restore_store hs).1⟩
  · rename_i hpersist
    refine Or.inl ⟨rfl, fun s hs => ⟨by simpa using hpersist, ?_⟩⟩
    obtain rfl := Except.ok.inj hs
    rfl

/-- What an open does to the files: nothing, or it cuts off a partial record and appends the records
of the startup; a runtime that opened has that store. -/
theorem openRuntime_grown {P : RecordType → Bytes → Prop} (config : RuntimeConfig) (env : Env)
    (boot : BootIdentity) (disk : Disk)
    (hstartup : ∀ s ∈ (recover config disk).1.toOption,
      Grown P (s.incarnate boot).store (exec (startup env) (s.incarnate boot)).2.store) :
    ((openRuntime config env boot disk).2 = disk ∧
        ∀ s, (openRuntime config env boot disk).1 = .ok s →
          config.persist = false ∧ s.store = none) ∨
      ∃ recovery store, config.persist = true ∧
        openStore disk config.allow_torn_tail_recovery = .ok recovery ∧
        Grown P (some recovery.store) (some store) ∧
        (openRuntime config env boot disk).2 = store.disk ∧
        ∀ s, (openRuntime config env boot disk).1 = .ok s → s.store = some store := by
  have hdisk := recover_disk config disk
  unfold openRuntime
  cases hrecover : recover config disk with
  | mk outcome disk₀ =>
    rw [hrecover] at hdisk hstartup
    cases outcome with
    | error status =>
      rcases hdisk with ⟨hsame, -⟩ | ⟨recovery, hpersist, hopen, hsame, -⟩
      · exact Or.inl ⟨hsame, fun s hs => absurd hs (by simp)⟩
      · exact Or.inr ⟨recovery, recovery.store, hpersist, hopen, .refl _, hsame,
          fun s hs => absurd hs (by simp)⟩
    | ok s₀ =>
      -- the startup may fail after some of its records; they stay in the log
      have hgrown := hstartup s₀ rfl
      have hsome := hgrown.isSome
      simp only at hdisk ⊢
      generalize exec (startup env) (s₀.incarnate boot) = started at hgrown hsome ⊢
      obtain ⟨outcome, s'⟩ := started
      have hstate : ∀ s, outcome.map (fun _ => s') = .ok s → s = s' := by
        intro s hs
        cases outcome with
        | error status => exact absurd hs (by simp [Except.map])
        | ok u => exact (Except.ok.inj hs).symm
      rcases hdisk with ⟨rfl, hnone⟩ | ⟨recovery, hpersist, hopen, hsame, hstore⟩
      · obtain ⟨hvolatile, hnone⟩ := hnone s₀ rfl
        have hnone' : s'.store = none := by
          have hstored : (s₀.incarnate boot).store = none := hnone
          simpa [hstored] using hsome
        exact Or.inl ⟨by simp [diskOr, hnone'], fun s hs => ⟨hvolatile, hstate s hs ▸ hnone'⟩⟩
      · have hstored : (s₀.incarnate boot).store = some recovery.store := hstore s₀ rfl
        simp only [hstored, Option.isSome_some] at hgrown hsome
        obtain ⟨store, hstore'⟩ := Option.isSome_iff_exists.mp hsome
        rw [hstore'] at hgrown
        exact Or.inr ⟨recovery, store, hpersist, hopen, hgrown, by simp [diskOr, hstore'],
          fun s hs => hstate s hs ▸ hstore'⟩

/-- An open appends records of the kinds that a startup commits. -/
theorem openRuntime_disk (config : RuntimeConfig) (env : Env) (boot : BootIdentity) (disk : Disk) :
    ((openRuntime config env boot disk).2 = disk ∧
        ∀ s, (openRuntime config env boot disk).1 = .ok s →
          config.persist = false ∧ s.store = none) ∨
      ∃ recovery store, config.persist = true ∧
        openStore disk config.allow_torn_tail_recovery = .ok recovery ∧
        Grown (fun type _ => type.atStartup) (some recovery.store) (some store) ∧
        (openRuntime config env boot disk).2 = store.disk ∧
        ∀ s, (openRuntime config env boot disk).1 = .ok s → s.store = some store :=
  openRuntime_grown config env boot disk fun _ _ => moves_startup env _

/-- An open keeps the snapshot. -/
theorem openRuntime_snapshot (config : RuntimeConfig) (env : Env) (boot : BootIdentity)
    (disk : Disk) : (openRuntime config env boot disk).2.snapshot = disk.snapshot := by
  rcases openRuntime_disk config env boot disk with ⟨hsame, -⟩ | ⟨recovery, store, -, hopen, hgrown,
    hdisk, -⟩
  · rw [hsame]
  · rw [hdisk, hgrown.disk.1, (openStore_spec hopen).snapshot]

/-- Stopping a process keeps the snapshot. -/
theorem diskAfterCrash_snapshot (sys : System) (torn_bytes : ℕ) :
    (sys.diskAfterCrash torn_bytes).snapshot = sys.disk.snapshot := by
  unfold System.diskAfterCrash
  split <;> rfl

/-- Stopping a process keeps the records of the log. -/
theorem diskAfterCrash_log (sys : System) (torn_bytes : ℕ) :
    (sys.diskAfterCrash torn_bytes).log = sys.disk.log := by
  unfold System.diskAfterCrash
  split <;> rfl

/-! ## What a call writes -/

/-- The records that a call with a given reply may commit. -/
inductive CallRecord (env : Env) (s : RuntimeState) (reply : Result Reply) :
    Call → RecordType → Bytes → Prop
  | topology {spec : TopologySpec} {t : Topology} (build : Topology.build spec = .ok t) :
    CallRecord env s reply (.applyTopology spec) .topologyDefinition t.encode
  | policy (policy : ContainmentPolicy) :
    CallRecord env s reply (.applyPolicy policy) .policyDefinition policy.encode
  | detection (observation : FailureObservation) :
    CallRecord env s reply (.recordDetection observation) .detectionRecord
      (encodeDetection (s.detectionRecord observation))
  | plan {id : AuthorizationId} {t : Topology} {plan : ContainmentPlan}
      (loaded : s.topology = some t) (computed : s.nextPlan t = .ok plan)
      (returned : reply = .ok (.plan plan)) :
    CallRecord env s reply (.plan id) .planDecision plan.encode
  | transition (request : TransitionRequest) (decision : TransitionDecision) :
    CallRecord env s reply (.transition request) .transitionDecision (encodeTransition decision)
  | boundary {request : TransitionRequest} {plan : ContainmentPlan}
      {decision : TransitionDecision}
      (checked : s.countTransition.checkTransition request
        (s.countTransition.startDecision request) = .ok (plan, decision))
      (published : TransitionDecision)
      (decided : published = { decision with sequence := published.sequence })
      (admitted : s.Admits env request) :
    CallRecord env s reply (.transition request) .boundaryDecision
      (encodeBoundaryDecision (boundaryRecord plan published))
  | submitted {id : AuthorizationId} {generation : PlanGeneration} {plan_digest : Digest}
      {plan : ContainmentPlan} (checked : s.checkSubmit generation plan_digest = .ok plan) :
    CallRecord env s reply (.submitApply id generation plan_digest) .applyAttempt
      (encodeAttempt (s.countAttempt.newAttempt plan env.later_millis))
  | acknowledged {ack : ApplyAcknowledgement} {attempt : ApplyAttempt} (attempt' : ApplyAttempt)
      (checked : s.checkAcknowledgement ack = .ok attempt)
      (taken : attempt' = attempt.mismatched ∨ attempt' = attempt.acknowledged ack env.now_millis) :
    CallRecord env s reply (.acknowledge ack) .applyAcknowledgement (encodeAttempt attempt')
  | verified {report : EffectVerification} {attempt : ApplyAttempt}
      (checked : s.checkVerification report = .ok attempt) :
    CallRecord env s reply (.verifyEffect report) .effectVerification
      (encodeAttempt (attempt.observed report env.now_millis))

/-- Committing a record appends it. -/
theorem grown_committed {P : RecordType → Bytes → Prop} {env : Env} {s : RuntimeState}
    {type : RecordType} {payload : Bytes} (hp : P type payload)
    (h : s.Committable env payload) : Grown P s.store (s.committed type payload).store := by
  unfold committed Committable at *
  cases hstore : s.store with
  | none => exact .refl _
  | some store =>
    obtain ⟨hfits, hadvances, -⟩ := h store hstore
    exact (Grown.refl _).append hp hfits hadvances

/-- A call appends its records, or it is a checkpoint. -/
theorem Outcome.grown {env : Env} {s s' : RuntimeState} {call : Call} {reply : Result Reply}
    (h : Outcome env s call reply s') :
    Grown (CallRecord env s reply call) s.store s'.store ∨
      call = .checkpoint ∧ ∃ store store', s.store = some store ∧ s'.store = some store' ∧
        s.Saved store store' := by
  cases h with
  | topology build _ committable => exact Or.inl (grown_committed (.topology build) committable)
  | policy _ _ committable => exact Or.inl (grown_committed (.policy _) committable)
  | diverged _ _ _ committable => exact Or.inl (grown_committed (.detection _) committable)
  | detected _ _ committable => exact Or.inl (grown_committed (.detection _) committable)
  | planned _ loaded computed committable =>
    exact Or.inl (grown_committed (.plan loaded computed rfl) committable)
  | transitionFailed _ _ counted => rcases counted with rfl | rfl <;> exact Or.inl (.refl _)
  | transitionRefused s₁ _ _ counted _ committable =>
    left
    have hstore : s₁.store = s.store := by rcases counted with rfl | rfl <;> rfl
    rw [← hstore]
    exact grown_committed (.transition _ _) committable
  | transitionHalved _ _ _ committable =>
    exact Or.inl (grown_committed (.transition _ _) committable)
  | transitionAccepted published authorized checked decided committable =>
    -- the second record of an accepted transition is written only under its checks
    have hadmitted : s.Admits env _ := ⟨by rw [authorized]; rfl, by rw [checked]; rfl⟩
    exact Or.inl ((grown_committed (.transition _ _) committable.1).trans
      (grown_committed (.boundary checked published decided hadmitted) committable.2))
  | submitted _ checked committable =>
    exact Or.inl (grown_committed (.submitted checked) committable)
  | ackMismatched _ _ checked taken =>
    rcases taken with rfl | ⟨committable, rfl⟩
    · exact Or.inl (.refl _)
    · exact Or.inl (grown_committed (.acknowledged _ checked (Or.inl rfl)) committable)
  | acknowledged checked _ committable =>
    exact Or.inl (grown_committed (.acknowledged _ checked (Or.inr rfl)) committable)
  | verifyMismatched _ checked _ committable =>
    exact Or.inl (grown_committed (.verified checked) committable)
  | verified checked _ committable =>
    left
    rw [adoptVerified_eq]
    exact grown_committed (s := s.setAttempt _ _) (.verified checked) committable
  | saveFailed _ durable saved => exact Or.inr ⟨rfl, _, _, durable, rfl, saved⟩
  | saved durable saved => exact Or.inr ⟨rfl, _, _, durable, rfl, saved⟩
  | _ => exact Or.inl (.refl _)

/-- A call keeps a durable runtime durable, and another without a store. -/
theorem Outcome.isSome {env : Env} {s s' : RuntimeState} {call : Call} {reply : Result Reply}
    (h : Outcome env s call reply s') : s'.store.isSome = s.store.isSome := by
  rcases h.grown with hgrown | ⟨-, store, store', hstore, hstore', -⟩
  · exact hgrown.isSome
  · rw [hstore, hstore']
    rfl

/-- The live runtime has the files that the system has. -/
def Synced (sys : System) : Prop :=
  ∀ s ∈ sys.runtime, ∀ store ∈ s.store, store.disk = sys.disk

/-- In every state that a run reaches the live runtime has the files. -/
theorem Synced.next {sys : System} (h : Synced sys) (event : Event) : Synced (sys.next event) := by
  intro s hs store hstore
  cases event with
  | open_ config env boot =>
    cases hrun : sys.runtime with
    | some s' =>
      rw [next_open_live hrun] at hs ⊢
      exact h s hs store hstore
    | none =>
      rw [next_open hrun] at hs ⊢
      have hok := mem_toOption.mp hs
      rcases openRuntime_disk config env boot sys.disk with ⟨-, hnone⟩ | ⟨-, store', -, -, -, hdisk,
        hsome⟩
      · exact absurd hstore (by simp [(hnone s hok).2])
      · rw [hsome s hok] at hstore
        obtain rfl := Option.some.inj hstore
        exact hdisk.symm
  | call env call =>
    cases hrun : sys.runtime with
    | none =>
      rw [next_call_closed hrun] at hs ⊢
      exact h s hs store hstore
    | some s' =>
      rw [next_call hrun] at hs ⊢
      obtain rfl := Option.some.inj hs
      have hstore' : (exec (perform env call) s').2.store = some store := hstore
      simp [diskOr, hstore']
  | crash torn_bytes =>
    rw [next_crash] at hs
    exact absurd hs (by simp)

/-- What a call of the live process leaves: the files as they are, if it has no store, or those of its
store, in which a call appends its records and a checkpoint saves its state. -/
theorem Synced.calls {sys : System} (h : Synced sys) {s : RuntimeState} (hrun : sys.runtime = some s)
    (env : Env) (call : Call) :
    s.store = none ∧ (exec (perform env call) s).2.store = none ∧
        (sys.next (.call env call)).disk = sys.disk ∨
      ∃ store store', s.store = some store ∧ store.disk = sys.disk ∧
        (exec (perform env call) s).2.store = some store' ∧
        (sys.next (.call env call)).disk = store'.disk ∧
        (Grown (CallRecord env s (exec (perform env call) s).1 call) (some store) (some store') ∨
          call = .checkpoint ∧ s.Saved store store') := by
  have ho := perform_outcome env s call
  have hsome := ho.isSome
  have hgrown := ho.grown
  rw [next_call hrun]
  cases hstore : s.store with
  | none =>
    have hnone : (exec (perform env call) s).2.store = none := by simpa [hstore] using hsome
    exact Or.inl ⟨rfl, hnone, by simp [diskOr, hnone]⟩
  | some store =>
    obtain ⟨store', hstore'⟩ := Option.isSome_iff_exists.mp (hsome.trans (by simp [hstore]))
    refine Or.inr ⟨store, store', rfl, h s hrun store hstore, hstore', by simp [diskOr, hstore'], ?_⟩
    rw [hstore, hstore'] at hgrown
    refine hgrown.imp_right fun hsave => ?_
    obtain ⟨hcheckpoint, before, after, hbefore, hafter, hsaved⟩ := hsave
    obtain rfl := Option.some.inj hbefore
    obtain rfl := Option.some.inj hafter
    exact ⟨hcheckpoint, hsaved⟩

end Fcfn
