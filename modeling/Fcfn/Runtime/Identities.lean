import Fcfn.Runtime.Planning
import Fcfn.Runtime.Replay

/-!
# Identities across restarts

Authorization identities, plan generations and attempt sequences are counters. They live in memory
and are saved in snapshots only: no record of the log brings one forward on replay. An identity is
therefore issued again after a restart exactly when the counter moved after the last snapshot. -/

namespace Fcfn

open Words Stateful RuntimeState DurableStore Tables

/-! ## Authorizations -/

/-- The identity that a reply issues. -/
def Reply.issued : Result Reply → Option AuthorizationId
  | .ok (.authorization record) => some record.id
  | _ => none

/-- The authorization that a call presents. -/
def Call.presents : Call → Option AuthorizationId
  | .plan authorization => some authorization
  | .transition request => some request.authorization
  | .submitApply authorization _ _ => some authorization
  | _ => none

namespace RuntimeState

/-- An authorization that holds is one of those issued, and not a fenced one. -/
theorem validateAuthorization_ok {s : RuntimeState} {now : UInt64} {id : AuthorizationId}
    {require_apply : Bool} {record : AuthorizationRecord}
    (h : (s.validateAuthorization now id require_apply).1 = .ok record) :
    ∃ entry ∈ s.authorizations, entry.record = record ∧ record.id = id ∧
      validateAuthority record.authority s.currentAuthority = .valid := by
  unfold validateAuthorization at h
  split at h
  · exact absurd h (by simp [fail])
  split at h
  · exact absurd h (by simp [fail])
  rename_i entry hfind
  split at h
  · exact absurd h (by simp [fail])
  simp only at h
  split at h
  · exact absurd h (by simp [fail])
  rename_i hvalid
  split at h
  · exact absurd h (by simp [fail])
  split at h
  · exact absurd h (by simp [fail])
  · obtain rfl := Except.ok.inj h
    exact ⟨entry, List.mem_of_find?_eq_some hfind, rfl, by simpa using List.find?_some hfind,
      not_not.mp hvalid⟩

end RuntimeState

/-- What a call does to the authorizations and their counter. -/
theorem Outcome.authorizations {env : Env} {s s' : RuntimeState} {call : Call}
    {reply : Result Reply} (h : Outcome env s call reply s') :
    (Reply.issued reply = none ∧ s'.authorization_counter = s.authorization_counter ∧
        ∀ entry ∈ s'.authorizations, ∃ old ∈ s.authorizations, old.record = entry.record) ∨
      (call = .authorize ∧ Reply.issued reply = some (s.authorization_counter + 1) ∧
        s'.authorization_counter = s.authorization_counter + 1 ∧
        ∀ entry ∈ s'.authorizations, entry.record.id = s.authorization_counter + 1 ∨
          ∃ old ∈ s.authorizations, old.record = entry.record) := by
  -- fencing an authorization changes its state and keeps its record
  have hfence : ∀ (id : AuthorizationId), ∀ entry ∈ (s.fenceAuthorization id).authorizations,
      ∃ old ∈ s.authorizations, old.record = entry.record := by
    intro id entry hmem
    rcases mem_updateFirst hmem with hold | ⟨old, hfind, rfl⟩
    · exact ⟨entry, hold, rfl⟩
    · exact ⟨old, List.mem_of_find?_eq_some hfind, rfl⟩
  have hsame : ∀ entry ∈ s.authorizations, ∃ old ∈ s.authorizations, old.record = entry.record :=
    fun entry hmem => ⟨entry, hmem, rfl⟩
  cases h with
  | fenced _ _ id => exact Or.inl ⟨rfl, rfl, hfence id⟩
  | full =>
    exact Or.inl ⟨rfl, rfl, fun entry hmem => ⟨entry, List.dropWhile_sublist _ |>.subset hmem, rfl⟩⟩
  | authorization =>
    refine Or.inr ⟨rfl, rfl, rfl, fun entry hmem => ?_⟩
    -- the new one has the next identity; the others were there before
    rcases List.mem_append.mp hmem with hold | hnew
    · exact Or.inr ⟨entry, List.dropWhile_sublist _ |>.subset hold, rfl⟩
    · obtain rfl := List.mem_singleton.mp hnew
      exact Or.inl rfl
  | transitionFailed _ _ counted =>
    rcases counted with rfl | rfl
    · exact Or.inl ⟨rfl, rfl, hsame⟩
    · exact Or.inl ⟨rfl, rfl, hfence _⟩
  | transitionRefused _ _ _ counted =>
    rcases counted with rfl | rfl
    · exact Or.inl ⟨rfl, rfl, hsame⟩
    · exact Or.inl ⟨rfl, rfl, hfence _⟩
  | ackMismatched _ _ _ taken => rcases taken with rfl | ⟨-, rfl⟩ <;> exact Or.inl ⟨rfl, rfl, hsame⟩
  | verified =>
    rw [adoptVerified_eq]
    exact Or.inl ⟨rfl, rfl, hsame⟩
  | _ => exact Or.inl ⟨rfl, rfl, hsame⟩

/-- The identities that durable runtimes have issued: by the incarnations before the live one, and
by the live one. -/
structure Issued where
  earlier : List AuthorizationId := []
  current : List AuthorizationId := []

/-- Note what a step issues. When the process stops, what it issued belongs to the past. -/
def noteIssued (sys : System) (event : Event) (issued : Issued) : Issued :=
  match event with
  | .open_ _ _ _ => issued
  | .crash _ => ⟨issued.earlier ++ issued.current, []⟩
  | .call _ _ =>
    if sys.durable then
      { issued with current := issued.current ++ (Reply.issued (sys.reply event)).toList }
    else issued

/-- In the live runtime of the store, an identity of an earlier incarnation is neither issued again
nor accepted by a call that presents it. -/
def StaysDead (p : System × Issued) (event : Event) : Prop :=
  p.1.durable = true →
    (∀ id ∈ Reply.issued (p.1.reply event), id ∉ p.2.earlier) ∧
    OnCall (fun _ _ call => ∀ id ∈ call.presents, id ∈ p.2.earlier →
      Reply.accepts (p.1.reply event) = false) p.1 event

instance StaysDead.instDecidable (p : System × Issued) (event : Event) :
    Decidable (StaysDead p event) :=
  -- an option has at most one member, so the 64-bit identities are not enumerated
  have _ : Decidable (∀ id ∈ Reply.issued (p.1.reply event), id ∉ p.2.earlier) :=
    Option.decidableForallMem _
  have _ : ∀ call : Call, Decidable (∀ id ∈ call.presents, id ∈ p.2.earlier →
      Reply.accepts (p.1.reply event) = false) := fun call => Option.decidableForallMem call.presents
  have _ := OnCall.instDecidable (P := fun _ _ call => ∀ id ∈ call.presents, id ∈ p.2.earlier →
      Reply.accepts (p.1.reply event) = false) p.1 event
  inferInstanceAs (Decidable (_ → _ ∧ _))

/-- The snapshot of a store has a counter of authorizations, if it can be read at all. -/
def AuthorizationsSaved (disk : Disk) (counter : Sequence) : Prop :=
  ∀ saved ∈ (savedState disk).toOption, saved.authorization_counter = counter

instance AuthorizationsSaved.instDecidable (disk : Disk) (counter : Sequence) :
    Decidable (AuthorizationsSaved disk counter) :=
  inferInstanceAs (Decidable (∀ saved ∈ (savedState disk).toOption, _))

/-- The process of a durable runtime stops only when the snapshot has the counter of
authorizations, and the counter does not wrap around. -/
def AuthorizationsKept (p : System × Issued) : Event → Prop
  | .open_ _ _ _ => True
  | .crash _ => ∀ s ∈ p.1.runtime, s.store.isSome →
    AuthorizationsSaved p.1.disk s.authorization_counter
  | .call _ call => call = .authorize → ∀ s ∈ p.1.runtime,
    s.authorization_counter < s.authorization_counter + 1

instance AuthorizationsKept.instDecidable (p : System × Issued) (event : Event) :
    Decidable (AuthorizationsKept p event) :=
  match event with
  | .open_ _ _ _ => inferInstanceAs (Decidable True)
  | .crash _ => inferInstanceAs (Decidable (∀ s ∈ p.1.runtime, s.store.isSome →
      AuthorizationsSaved p.1.disk s.authorization_counter))
  | .call _ call => inferInstanceAs (Decidable (call = .authorize → ∀ s ∈ p.1.runtime,
      s.authorization_counter < s.authorization_counter + 1))

/-- What keeps the identities of different incarnations apart. -/
structure IssuedBelow (p : System × Issued) : Prop where
  /-- Everything issued is at most the counter, and nothing that is active was issued before. -/
  live : ∀ s ∈ p.1.runtime, s.store.isSome →
    (∀ id ∈ p.2.earlier ++ p.2.current, id ≤ s.authorization_counter) ∧
      ∀ entry ∈ s.authorizations, entry.record.id ∉ p.2.earlier
  /-- When the store is closed, everything issued is at most the counter of the snapshot. -/
  stored : p.1.durable = false → p.2.current = [] ∧
    ∀ saved ∈ (savedState p.1.disk).toOption, ∀ id ∈ p.2.earlier, id ≤ saved.authorization_counter

/-- The snapshot is what the durable state is read from. -/
theorem savedState_congr {disk disk' : Disk} (h : disk'.snapshot = disk.snapshot) :
    savedState disk' = savedState disk := by
  rw [savedState, savedState, h]

/-- Only a configuration that persists opens a runtime with a store. -/
theorem persist_of_durable {config : RuntimeConfig} {disk disk₀ : Disk} {s₀ s : RuntimeState}
    {boot : BootIdentity} (hrecover : recover config disk = (.ok s₀, disk₀))
    (hstarted : Started (s₀.incarnate boot) s) (hdurable : s.store.isSome) :
    config.persist = true := by
  rcases recover_ok hrecover with ⟨hpersist, -⟩ | ⟨-, rfl, -⟩
  · exact hpersist
  · rw [hstarted.same.isSome] at hdurable
    exact absurd hdurable (by simp [incarnate, RuntimeState.initial])

/-- Opening a store keeps the identities apart. -/
theorem IssuedBelow.open_ {sys : System} {issued : Issued} (h : IssuedBelow (sys, issued))
    (config : RuntimeConfig) (env : Env) (boot : BootIdentity) :
    IssuedBelow (sys.next (.open_ config env boot), issued) := by
  cases hrun : sys.runtime with
  | some s =>
    rw [next_open_live hrun]
    exact h
  | none =>
    obtain ⟨hcurrent, hearlier⟩ := h.stored (by simp [System.durable, hrun])
    have hsnapshot := openRuntime_snapshot config env boot sys.disk
    rw [next_open hrun]
    refine ⟨fun s hs hdurable => ?_, fun _ => ⟨hcurrent, ?_⟩⟩
    · have hok := mem_toOption.mp hs
      obtain ⟨s₀, disk₀, hrecover, hstarted, -⟩ := openRuntime_ok (Prod.ext hok rfl)
      have hpersist := persist_of_durable hrecover hstarted hdurable
      obtain ⟨saved, hsaved, hcounters⟩ := recover_counters hrecover hpersist
      -- the counter comes from the snapshot, since no record of the log has it
      have hcounter : s.authorization_counter = saved.authorization_counter :=
        hstarted.same.authorization_counter.trans hcounters.authorization
      refine ⟨fun id hid => ?_, fun entry hentry => ?_⟩
      · rw [hcurrent, List.append_nil] at hid
        rw [hcounter]
        exact hearlier saved (mem_toOption.mpr hsaved) id hid
      · rw [hstarted.same.authorizations] at hentry
        exact absurd hentry (by simp [incarnate])
    · rw [savedState_congr hsnapshot]
      exact hearlier

/-- Stopping a process keeps the identities apart when the snapshot has the counter. -/
theorem IssuedBelow.crash {sys : System} {issued : Issued} (h : IssuedBelow (sys, issued))
    {torn_bytes : ℕ} (hkept : AuthorizationsKept (sys, issued) (.crash torn_bytes)) :
    IssuedBelow (sys.next (.crash torn_bytes), noteIssued sys (.crash torn_bytes) issued) := by
  rw [next_crash]
  refine ⟨fun s hs => absurd hs (by simp), fun _ => ⟨rfl, ?_⟩⟩
  rw [savedState_congr (diskAfterCrash_snapshot sys torn_bytes)]
  intro saved hsaved id hid
  cases hdurable : sys.durable with
  | false =>
    obtain ⟨hcurrent, hearlier⟩ : issued.current = [] ∧ _ := h.stored hdurable
    refine hearlier saved hsaved id ?_
    simpa [noteIssued, hcurrent] using hid
  | true =>
    obtain ⟨s, hs, hstore⟩ := Option.any_eq_true _ _ |>.mp hdurable
    rw [hkept s hs hstore saved hsaved]
    exact (h.live s hs hstore).1 id hid

/-- A call keeps the identities apart when the counter does not wrap around. -/
theorem IssuedBelow.call {sys : System} {issued : Issued} (h : IssuedBelow (sys, issued))
    {env : Env} {call : Call} (hkept : AuthorizationsKept (sys, issued) (.call env call)) :
    IssuedBelow (sys.next (.call env call), noteIssued sys (.call env call) issued) := by
  cases hrun : sys.runtime with
  | none =>
    have hclosed : sys.durable = false := by simp [System.durable, hrun]
    rw [next_call_closed hrun, noteIssued, if_neg (by simp [hclosed])]
    exact h
  | some s =>
    have ho := perform_outcome env s call
    have hsome := ho.isSome
    have hauthorizations := ho.authorizations
    rw [next_call hrun, noteIssued, reply_call hrun]
    generalize (exec (perform env call) s).1 = reply at *
    generalize (exec (perform env call) s).2 = s' at *
    cases hstore : s.store.isSome with
    | false =>
      -- a runtime without a store leaves the files alone
      have hclosed : sys.durable = false := by simp [System.durable, hrun, hstore]
      have hnone : s'.store = none := by simpa [hstore] using hsome
      rw [if_neg (by simp [hclosed])]
      refine ⟨fun t ht hdurable => ?_, fun _ => ?_⟩
      · obtain rfl := Option.some.inj ht
        exact absurd hdurable (by simp [hnone])
      · simpa [diskOr, hnone] using h.stored hclosed
    | true =>
      have hopen : sys.durable = true := by simp [System.durable, hrun, hstore]
      obtain ⟨hbelow, hactive⟩ := h.live s hrun hstore
      rw [if_pos hopen]
      refine ⟨fun t ht _ => ?_, fun hclosed => ?_⟩
      · obtain rfl := Option.some.inj ht
        rcases hauthorizations with ⟨hissued, hcounter, hentries⟩ |
          ⟨rfl, hissued, hcounter, hentries⟩
        · refine ⟨fun id hid => ?_, fun entry hentry => ?_⟩
          · rw [hcounter]
            exact hbelow id (by simpa [hissued] using hid)
          · obtain ⟨old, hold, hsame⟩ := hentries entry hentry
            rw [← hsame]
            exact hactive old hold
        · have hwraps := hkept rfl s hrun
          refine ⟨fun id hid => ?_, fun entry hentry => ?_⟩
          · rw [hcounter]
            have hcases : id ∈ issued.earlier ++ issued.current ∨
                id = s.authorization_counter + 1 := by
              simpa [hissued, or_assoc] using hid
            rcases hcases with hold | rfl
            · exact UInt64.le_of_lt (UInt64.lt_of_le_of_lt (hbelow id hold) hwraps)
            · exact UInt64.le_refl _
          · rcases hentries entry hentry with hnew | ⟨old, hold, hsame⟩
            · intro hearlier
              have hle := hbelow entry.record.id (List.mem_append_left _ hearlier)
              rw [hnew] at hle
              exact absurd hwraps (UInt64.not_lt.mpr hle)
            · rw [← hsame]
              exact hactive old hold
      · exact absurd hclosed (by simp [System.durable, hsome, hstore])

/-- A call that presents an identity is accepted only when it is one of those active. -/
theorem Outcome.presents {env : Env} {s s' : RuntimeState} {call : Call} {reply : Result Reply}
    (h : Outcome env s call reply s') {id : AuthorizationId} (hpresents : call.presents = some id)
    (haccepts : Reply.accepts reply = true) : ∃ entry ∈ s.authorizations, entry.record.id = id := by
  cases h with
  | planned authorized =>
    obtain ⟨entry, hmem, rfl, hid, -⟩ := validateAuthorization_ok authorized
    exact ⟨entry, hmem, hid.trans (Option.some.inj hpresents)⟩
  | transitionRefused _ _ _ _ denied =>
    exact absurd haccepts (by simp [Reply.accepts, denied.1])
  | transitionAccepted _ authorized =>
    obtain ⟨entry, hmem, rfl, hid, -⟩ := validateAuthorization_ok authorized
    exact ⟨entry, hmem, hid.trans (Option.some.inj hpresents)⟩
  | submitted authorized =>
    obtain ⟨entry, hmem, rfl, hid, -⟩ := validateAuthorization_ok authorized
    exact ⟨entry, hmem, hid.trans (Option.some.inj hpresents)⟩
  | refused => exact absurd haccepts (by simp [Reply.accepts])
  | fenced => exact absurd haccepts (by simp [Reply.accepts])
  | transitionFailed => exact absurd haccepts (by simp [Reply.accepts])
  | transitionHalved => exact absurd haccepts (by simp [Reply.accepts])
  | submitFailed => exact absurd haccepts (by simp [Reply.accepts])
  | _ => exact absurd hpresents (by simp [Call.presents])

/-- Where the identities are kept apart, those of earlier incarnations stay dead. -/
theorem IssuedBelow.staysDead {sys : System} {issued : Issued} (h : IssuedBelow (sys, issued))
    {event : Event} (hkept : AuthorizationsKept (sys, issued) event) :
    StaysDead (sys, issued) event := by
  intro hdurable
  obtain ⟨s, hrun, hstore⟩ := Option.any_eq_true _ _ |>.mp hdurable
  obtain ⟨hbelow, hactive⟩ := h.live s hrun hstore
  cases event with
  | open_ config env boot =>
    have hreply : sys.reply (.open_ config env boot) =
        fail .alreadyExists "store is already open by a live process" := by
      rw [System.reply, System.step, hrun]
    exact ⟨fun id hid => absurd hid (by simp [hreply, Reply.issued, fail]), trivial⟩
  | crash torn_bytes => exact ⟨fun id hid => absurd hid (by simp [System.reply, System.step,
      Reply.issued]), trivial⟩
  | call env call =>
    have ho := perform_outcome env s call
    simp only [reply_call hrun]
    refine ⟨fun id hid hearlier => ?_, fun t ht id hpresents hearlier => ?_⟩
    · rcases ho.authorizations with ⟨hissued, -⟩ | ⟨rfl, hissued, -⟩
      · rw [hissued] at hid
        exact absurd hid (by simp)
      · rw [hissued] at hid
        obtain rfl := Option.some.inj hid
        have hle := hbelow _ (List.mem_append_left _ hearlier)
        exact absurd (hkept rfl s hrun) (UInt64.not_lt.mpr hle)
    -- an authorization that gets past validation is in the table, and those are of this incarnation
    · by_contra haccepts
      obtain ⟨entry, hmem, hid⟩ := ho.presents hpresents (by simpa using haccepts)
      exact hactive entry hmem (hid ▸ hearlier)

/-- In a run whose durable processes stop only when the snapshot has the counter of authorizations,
authorizations of earlier incarnations stay dead. -/
theorem authorizations_stay_dead {events : List Event}
    (h : Runs.Along (Runs.observe System.next noteIssued) AuthorizationsKept ({}, {}) events) :
    Runs.Along (Runs.observe System.next noteIssued) StaysDead ({}, {}) events := by
  refine Runs.Along.of_invariant (I := IssuedBelow) ?_ ?_ h
  · rintro ⟨sys, issued⟩ event hbelow hkept
    refine ⟨?_, hbelow.staysDead hkept⟩
    cases event with
    | open_ config env boot => exact hbelow.open_ config env boot
    | call env call => exact hbelow.call hkept
    | crash torn_bytes => exact hbelow.crash hkept
  · exact ⟨fun s hs => absurd hs (by simp), fun _ => ⟨rfl, by simp⟩⟩

/-- A run that takes a checkpoint before the process stops. -/
theorem authorizations_stay_dead_checkpoint :
    Runs.Along (Runs.observe System.next noteIssued) StaysDead ({}, {})
      (Sample.planned ++ [Sample.does .checkpoint, .crash 0, Sample.opens 2, Sample.does .authorize,
        Sample.does (.plan 1), Sample.does (.plan 2)]) :=
  authorizations_stay_dead (by decide +kernel)

/-- Without a checkpoint the identity is issued again, and a holder of the old one is accepted. -/
theorem authorization_revived :
    ¬ ∀ events, Runs.Along (Runs.observe System.next noteIssued) StaysDead ({}, {}) events := by
  intro h
  have hdead := h [Sample.opens 1, Sample.does .authorize, .crash 0, Sample.opens 2,
    Sample.does .authorize, Sample.does (.plan 1)]
  revert hdead
  decide +kernel

/-! ## Plans and attempts -/

/-- The generation of the plan that a reply returns. -/
def Reply.planned : Result Reply → Option PlanGeneration
  | .ok (.plan computed) => some computed.generation
  | _ => none

/-- The identity of the attempt that a reply to a submission returns. -/
def Reply.submission : Result Reply → Option ApplyAttemptId
  | .ok (.submitted attempt) => some attempt.id
  | _ => none

/-- What the durable runtimes of a store have returned, in the order of return. -/
structure Returned where
  plans : List PlanGeneration := []
  attempts : List ApplyAttemptId := []

/-- Note what a step returns. -/
def noteReturned (sys : System) (event : Event) (returned : Returned) : Returned :=
  if sys.durable then
    { plans := returned.plans ++ (Reply.planned (sys.reply event)).toList
      attempts := returned.attempts ++ (Reply.submission (sys.reply event)).toList }
  else returned

/-- A store is opened only when its log has no plan and no attempt, and no counter wraps around. -/
def CountersKept (sys : System) : Event → Prop
  | .open_ config _ _ => sys.runtime.isNone → config.persist = true →
    ∀ frame ∈ sys.disk.log, frame.type ≠ .planDecision ∧ frame.type ≠ .applyAttempt
  | .call _ _ => ∀ s ∈ sys.runtime,
    s.plan_counter < s.plan_counter + 1 ∧ s.attempt_counter < s.attempt_counter + 1
  | .crash _ => True

instance CountersKept.instDecidable (sys : System) (event : Event) :
    Decidable (CountersKept sys event) :=
  match event with
  | .open_ config _ _ => inferInstanceAs (Decidable (sys.runtime.isNone → config.persist = true →
      ∀ frame ∈ sys.disk.log, frame.type ≠ .planDecision ∧ frame.type ≠ .applyAttempt))
  | .call _ _ => inferInstanceAs (Decidable (∀ s ∈ sys.runtime,
      s.plan_counter < s.plan_counter + 1 ∧ s.attempt_counter < s.attempt_counter + 1))
  | .crash _ => inferInstanceAs (Decidable True)

/-- What a call does to the counters of plans and attempts, and what it returns. -/
theorem Outcome.returns {env : Env} {s s' : RuntimeState} {call : Call} {reply : Result Reply}
    (h : Outcome env s call reply s') :
    (Reply.planned reply = none ∧ Reply.submission reply = none ∧
        s'.plan_counter = s.plan_counter ∧
        (s'.attempt_counter = s.attempt_counter ∨ s'.attempt_counter = s.attempt_counter + 1)) ∨
      (Reply.planned reply = some (s.plan_counter + 1) ∧ Reply.submission reply = none ∧
        s'.plan_counter = s.plan_counter + 1 ∧ s'.attempt_counter = s.attempt_counter ∧
        ∃ payload, s'.store = s.store.map fun store => store.appended .planDecision payload) ∨
      ∃ id, Reply.planned reply = none ∧ Reply.submission reply = some id ∧
        id.sequence = s.attempt_counter + 1 ∧ s'.plan_counter = s.plan_counter ∧
        s'.attempt_counter = s.attempt_counter + 1 ∧
        ∃ payload, s'.store = s.store.map fun store => store.appended .applyAttempt payload := by
  cases h with
  | planned _ _ computed =>
    refine Or.inr (Or.inl ⟨?_, rfl, rfl, rfl, _, rfl⟩)
    rw [Reply.planned, nextPlan_generation computed]
  | submitFailed => exact Or.inl ⟨rfl, rfl, rfl, Or.inr rfl⟩
  | submitted => exact Or.inr (Or.inr ⟨_, rfl, rfl, rfl, rfl, rfl, _, rfl⟩)
  | transitionFailed _ _ counted =>
    rcases counted with rfl | rfl <;> exact Or.inl ⟨rfl, rfl, rfl, Or.inl rfl⟩
  | transitionRefused _ _ _ counted =>
    rcases counted with rfl | rfl <;> exact Or.inl ⟨rfl, rfl, rfl, Or.inl rfl⟩
  | ackMismatched _ _ _ taken =>
    rcases taken with rfl | ⟨-, rfl⟩ <;> exact Or.inl ⟨rfl, rfl, rfl, Or.inl rfl⟩
  | verified =>
    rw [adoptVerified_eq]
    exact Or.inl ⟨rfl, rfl, rfl, Or.inl rfl⟩
  | _ => exact Or.inl ⟨rfl, rfl, rfl, Or.inl rfl⟩

/-- What was returned is at most the counters of the snapshot, unless the log shows otherwise. -/
def Linked (disk : Disk) (returned : Returned) : Prop :=
  ∀ saved ∈ (savedState disk).toOption,
    ((∀ frame ∈ disk.log, frame.type ≠ .planDecision) →
      ∀ generation ∈ returned.plans, generation ≤ saved.plan_counter) ∧
    ((∀ frame ∈ disk.log, frame.type ≠ .applyAttempt) →
      ∀ id ∈ returned.attempts, id.sequence ≤ saved.attempt_counter)

/-- What keeps the generations and the attempts of a run apart. -/
structure ReturnedBelow (p : System × Returned) : Prop where
  ascending : p.2.plans.Pairwise (· < ·)
  nodup : p.2.attempts.Nodup
  synced : Synced p.1
  linked : Linked p.1.disk p.2
  live : ∀ s ∈ p.1.runtime, s.store.isSome →
    (∀ generation ∈ p.2.plans, generation ≤ s.plan_counter) ∧
      ∀ id ∈ p.2.attempts, id.sequence ≤ s.attempt_counter

/-- Records after the log keep the link. -/
theorem Linked.append {disk disk' : Disk} {returned : Returned} (h : Linked disk returned)
    (hsnapshot : disk'.snapshot = disk.snapshot)
    (hadded : ∃ added, disk'.log = disk.log ++ added) : Linked disk' returned := by
  obtain ⟨added, hlog⟩ := hadded
  intro saved hsaved
  rw [savedState_congr hsnapshot] at hsaved
  obtain ⟨hplans, hattempts⟩ := h saved hsaved
  rw [hlog]
  exact ⟨fun hnone => hplans fun frame hf => hnone frame (List.mem_append_left _ hf),
    fun hnone => hattempts fun frame hf => hnone frame (List.mem_append_left _ hf)⟩

/-- A plan in the log lifts what the link says of plans. -/
theorem Linked.plan {disk : Disk} {returned : Returned} (h : Linked disk returned)
    {plans : List PlanGeneration}
    (hlog : ¬ ∀ frame ∈ disk.log, frame.type ≠ .planDecision) :
    Linked disk { returned with plans := plans } :=
  fun saved hsaved => ⟨fun hnone => absurd hnone hlog, (h saved hsaved).2⟩

/-- An attempt in the log lifts what the link says of attempts. -/
theorem Linked.attempt {disk : Disk} {returned : Returned} (h : Linked disk returned)
    {attempts : List ApplyAttemptId}
    (hlog : ¬ ∀ frame ∈ disk.log, frame.type ≠ .applyAttempt) :
    Linked disk { returned with attempts := attempts } :=
  fun saved hsaved => ⟨(h saved hsaved).1, fun hnone => absurd hnone hlog⟩

/-- A snapshot that was just written has the counters of the state. -/
theorem linked_saved (s : RuntimeState) {returned : Returned}
    (hplans : ∀ generation ∈ returned.plans, generation ≤ s.plan_counter)
    (hattempts : ∀ id ∈ returned.attempts, id.sequence ≤ s.attempt_counter) (sequence : Sequence) :
    Linked ⟨some (sequence, encodeDurableState s.durable), [], 0⟩ returned := by
  intro saved hsaved
  have hdecoded := mem_toOption.mp hsaved
  rw [savedState] at hdecoded
  simp only [encodeDurableState_ne_nil, if_false] at hdecoded
  obtain ⟨hplan, hattempt⟩ := decodeDurableState_counters hdecoded
  rw [hplan, hattempt]
  exact ⟨fun _ => hplans, fun _ => hattempts⟩

/-- A call that appends to the log, or saves the state, keeps the link to what was returned before. -/
theorem Linked.called {s : RuntimeState} {store store' : DurableStore} {returned : Returned}
    {P : RecordType → Bytes → Prop} {call : Call} (h : Linked store.disk returned)
    (hplans : ∀ generation ∈ returned.plans, generation ≤ s.plan_counter)
    (hattempts : ∀ id ∈ returned.attempts, id.sequence ≤ s.attempt_counter)
    (hgrown : Grown P (some store) (some store') ∨ call = .checkpoint ∧ s.Saved store store') :
    Linked store'.disk returned := by
  rcases hgrown with hgrown | ⟨-, rfl | ⟨rfl, -⟩⟩
  · obtain ⟨hsnapshot, -, added, hlog, -⟩ := hgrown.disk
    exact h.append hsnapshot ⟨added, hlog⟩
  · exact h
  · exact linked_saved s hplans hattempts _

/-- Opening a store keeps the identities apart when its log has no plan and no attempt. -/
theorem ReturnedBelow.open_ {sys : System} {returned : Returned}
    (h : ReturnedBelow (sys, returned)) {config : RuntimeConfig} {env : Env} {boot : BootIdentity}
    (hkept : CountersKept sys (.open_ config env boot)) :
    ReturnedBelow (sys.next (.open_ config env boot),
      noteReturned sys (.open_ config env boot) returned) := by
  have hsynced := h.synced.next (.open_ config env boot)
  cases hrun : sys.runtime with
  | some s =>
    have hreply : sys.reply (.open_ config env boot) =
        fail .alreadyExists "store is already open by a live process" := by
      rw [System.reply, System.step, hrun]
    have hnothing : noteReturned sys (.open_ config env boot) returned = returned := by
      unfold noteReturned
      split
      · simp [hreply, fail, Reply.planned, Reply.submission]
      · rfl
    rw [hnothing, next_open_live hrun]
    exact h
  | none =>
    rw [noteReturned, if_neg (by simp [System.durable, hrun])]
    have hsnapshot := openRuntime_snapshot config env boot sys.disk
    rw [next_open hrun] at hsynced ⊢
    refine ⟨h.ascending, h.nodup, hsynced, ?_, fun s hs hdurable => ?_⟩
    · rcases openRuntime_disk config env boot sys.disk with ⟨hsame, -⟩ | ⟨recovery, store, -, hopen,
        hgrown, hdisk, -⟩
      · rw [hsame]
        exact h.linked
      · obtain ⟨-, -, added, hlog, -⟩ := hgrown.disk
        exact h.linked.append hsnapshot
          ⟨added, by rw [hdisk, hlog, (openStore_spec hopen).log]⟩
    · have hok := mem_toOption.mp hs
      obtain ⟨s₀, disk₀, hrecover, hstarted, -⟩ := openRuntime_ok (Prod.ext hok rfl)
      have hpersist := persist_of_durable hrecover hstarted hdurable
      obtain ⟨saved, hsaved, hcounters⟩ := recover_counters hrecover hpersist
      -- a log without plans and attempts leaves the counters where the snapshot has them
      have hclean := hkept (by simp [hrun]) hpersist
      obtain ⟨hplans, hattempts⟩ := h.linked saved (mem_toOption.mpr hsaved)
      rw [hstarted.same.plan_counter, hstarted.same.attempt_counter]
      have hplan : (s₀.incarnate boot).plan_counter = saved.plan_counter := hcounters.plan
      have hattempt : (s₀.incarnate boot).attempt_counter = saved.attempt_counter :=
        hcounters.attempt
      rw [hplan, hattempt]
      exact ⟨hplans fun frame hf => (hclean frame hf).1, hattempts fun frame hf =>
        (hclean frame hf).2⟩

/-- A call keeps the identities apart when no counter wraps around. -/
theorem ReturnedBelow.call {sys : System} {returned : Returned} (h : ReturnedBelow (sys, returned))
    {env : Env} {call : Call} (hkept : CountersKept sys (.call env call)) :
    ReturnedBelow (sys.next (.call env call), noteReturned sys (.call env call) returned) := by
  have hsynced := h.synced.next (.call env call)
  cases hrun : sys.runtime with
  | none =>
    have hclosed : sys.durable = false := by simp [System.durable, hrun]
    rw [next_call_closed hrun, noteReturned, if_neg (by simp [hclosed])]
    exact h
  | some s =>
    have hreturns := (perform_outcome env s call).returns
    have hnext := runtime_call hrun env call
    obtain ⟨hwrapsPlan, hwrapsAttempt⟩ := hkept s hrun
    rw [noteReturned, reply_call hrun]
    rcases h.synced.calls hrun env call with ⟨hstore, hnone, hfiles⟩ |
      ⟨store, store', hstore, hdisk, hstore', hfiles, hgrown⟩
    · -- a runtime without a store leaves the files alone
      rw [if_neg (by simp [System.durable, hrun, hstore])]
      refine ⟨h.ascending, h.nodup, hsynced, hfiles ▸ h.linked, fun t ht hdurable => ?_⟩
      obtain rfl := Option.some.inj (hnext.symm.trans ht)
      exact absurd hdurable (by simp [hnone])
    · obtain ⟨hplans, hattempts⟩ := h.live s hrun (by simp [hstore])
      have hbefore : Linked store.disk returned := hdisk ▸ h.linked
      have hlinked := hbefore.called hplans hattempts hgrown
      rw [if_pos (by simp [System.durable, hrun, hstore])]
      -- nothing is returned, or a plan, or an attempt; each has its own counter
      rcases hreturns with ⟨hplanned, hsubmission, hplan, hattempt⟩ |
        ⟨hplanned, hsubmission, hplan, hattempt, payload, happended⟩ |
        ⟨id, hplanned, hsubmission, hsequence, hplan, hattempt, payload, happended⟩
      · simp only [hplanned, hsubmission, Option.toList_none, List.append_nil]
        have hle : s.attempt_counter ≤ (exec (perform env call) s).2.attempt_counter := by
          rcases hattempt with heq | heq
          · exact heq ▸ UInt64.le_refl _
          · exact heq ▸ UInt64.le_of_lt hwrapsAttempt
        refine ⟨h.ascending, h.nodup, hsynced, hfiles ▸ hlinked, fun t ht _ => ?_⟩
        obtain rfl := Option.some.inj (hnext.symm.trans ht)
        rw [hplan]
        exact ⟨hplans, fun id hid => UInt64.le_trans (hattempts id hid) hle⟩
      · rw [hstore] at happended
        obtain rfl := Option.some.inj (hstore'.symm.trans happended)
        simp only [hplanned, hsubmission, Option.toList_none, Option.toList_some, List.append_nil]
        refine ⟨?_, h.nodup, hsynced, hfiles ▸ hlinked.plan (by simp [appended]), fun t ht _ => ?_⟩
        · refine List.pairwise_append.mpr ⟨h.ascending, List.pairwise_singleton _ _, ?_⟩
          intro generation hold next hnext
          rw [List.mem_singleton.mp hnext]
          exact UInt64.lt_of_le_of_lt (hplans generation hold) hwrapsPlan
        · obtain rfl := Option.some.inj (hnext.symm.trans ht)
          rw [hplan, hattempt]
          refine ⟨fun generation hmem => ?_, hattempts⟩
          rcases List.mem_append.mp hmem with hold | hnew
          · exact UInt64.le_trans (hplans generation hold) (UInt64.le_of_lt hwrapsPlan)
          · rw [List.mem_singleton.mp hnew]
            exact UInt64.le_refl _
      · rw [hstore] at happended
        obtain rfl := Option.some.inj (hstore'.symm.trans happended)
        simp only [hplanned, hsubmission, Option.toList_none, Option.toList_some, List.append_nil]
        refine ⟨h.ascending, ?_, hsynced, hfiles ▸ hlinked.attempt (by simp [appended]),
          fun t ht _ => ?_⟩
        · refine List.nodup_append.mpr ⟨h.nodup, List.nodup_singleton _, ?_⟩
          intro old hold new hnew
          rw [List.mem_singleton.mp hnew]
          rintro rfl
          have hle := hattempts old hold
          rw [hsequence] at hle
          exact absurd hwrapsAttempt (UInt64.not_lt.mpr hle)
        · obtain rfl := Option.some.inj (hnext.symm.trans ht)
          rw [hplan, hattempt]
          refine ⟨hplans, fun old hmem => ?_⟩
          rcases List.mem_append.mp hmem with hold | hnew
          · exact UInt64.le_trans (hattempts old hold) (UInt64.le_of_lt hwrapsAttempt)
          · rw [List.mem_singleton.mp hnew, hsequence]
            exact UInt64.le_refl _

/-- Stopping a process keeps the identities apart. -/
theorem ReturnedBelow.crash {sys : System} {returned : Returned}
    (h : ReturnedBelow (sys, returned)) (torn_bytes : ℕ) :
    ReturnedBelow (sys.next (.crash torn_bytes), noteReturned sys (.crash torn_bytes) returned) := by
  have hsynced := h.synced.next (.crash torn_bytes)
  have hnothing : noteReturned sys (.crash torn_bytes) returned = returned := by
    unfold noteReturned
    split
    · simp [System.reply, System.step, Reply.planned, Reply.submission]
    · rfl
  rw [hnothing]
  rw [next_crash] at hsynced ⊢
  refine ⟨h.ascending, h.nodup, hsynced, ?_, fun s hs => absurd hs (by simp)⟩
  refine h.linked.append (diskAfterCrash_snapshot sys torn_bytes) ⟨[], ?_⟩
  unfold System.diskAfterCrash
  split <;> simp

end Fcfn
