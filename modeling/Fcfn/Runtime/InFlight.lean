import Fcfn.Runtime.Attempts

/-!
# Attempts in flight

The gate of `submit_apply` looks at the effect state, which an acknowledgement and an effect report
derive again from the attempts of the plan in force. The gate keeps a second attempt out as long as
the derivation still sees the one in flight (`InFlightInvariant`): that one has to be the newest of
the plan in force, and the flag that overrides the derivation has to be clear. -/

namespace Fcfn

open Words Stateful RuntimeState Tables

namespace RuntimeState

/-- An attempt of this incarnation that the enforcement plane has not settled. -/
def OwnInFlight (s : RuntimeState) (attempt : ApplyAttempt) : Prop :=
  ¬ s.Foreign attempt ∧ (attempt.state = .submitted ∨ attempt.state = .acknowledged)

instance OwnInFlight.instDecidable (s : RuntimeState) (attempt : ApplyAttempt) :
    Decidable (s.OwnInFlight attempt) :=
  inferInstanceAs (Decidable (_ ∧ _))

/-- The attempts of this incarnation in flight. -/
def inFlight (s : RuntimeState) : List ApplyAttempt :=
  s.attempts.filter fun attempt => s.OwnInFlight attempt

/-- At most one attempt of this incarnation is in flight. -/
def AtMostOneInFlight (s : RuntimeState) : Prop := s.inFlight.length ≤ 1

instance AtMostOneInFlight.instDecidable (s : RuntimeState) : Decidable s.AtMostOneInFlight :=
  inferInstanceAs (Decidable (_ ≤ _))

/-- Deriving the effect state for a plan sees the attempt: the flag is clear and the attempt is the
newest of the plan. -/
def Sees (s : RuntimeState) (flag : Bool) (plan : PlanGeneration) (attempt : ApplyAttempt) : Prop :=
  flag = false ∧ newestAttempt plan s.attempts = some attempt

instance Sees.instDecidable (s : RuntimeState) (flag : Bool) (plan : PlanGeneration)
    (attempt : ApplyAttempt) : Decidable (s.Sees flag plan attempt) :=
  inferInstanceAs (Decidable (_ ∧ _))

end RuntimeState

/-- A report after which the effect state is derived from something else than the attempt in flight:
an acknowledgement that accepts an attempt which is not the newest of the plan in force, or an
effect report on another attempt that leaves such a plan in force. -/
def LosesSight (s : RuntimeState) (env : Env) : Call → Prop
  | .acknowledge ack =>
    ∃ attempt ∈ (s.checkAcknowledgement ack).toOption,
      (ack.observed_boundary_digest = attempt.boundary_digest ∧ ack.accepted = true ∧
        s.Committable env (encodeAttempt (attempt.acknowledged ack env.now_millis))) ∧
      ¬ s.Sees s.effect_requires_reverification s.boundary_plan attempt
  | .verifyEffect report =>
    ∃ attempt ∈ (s.checkVerification report).toOption,
      s.Committable env (encodeAttempt (attempt.observed report env.now_millis)) ∧
      ∃ other ∈ s.inFlight, other ≠ attempt ∧
        ¬ s.Sees (s.effect_requires_reverification && !decide (report.Confirms attempt))
          (s.planAfter report attempt) other
  | _ => False

instance LosesSight.instDecidable (s : RuntimeState) (env : Env) (call : Call) :
    Decidable (LosesSight s env call) :=
  match call with
  | .acknowledge ack =>
    inferInstanceAs (Decidable (∃ attempt ∈ (s.checkAcknowledgement ack).toOption, _))
  | .verifyEffect report =>
    inferInstanceAs (Decidable (∃ attempt ∈ (s.checkVerification report).toOption, _))
  | .applyTopology _ | .applyPolicy _ | .recordDetection _ | .authorize | .plan _ | .transition _
  | .submitApply _ _ _ | .checkpoint => inferInstanceAs (Decidable False)

/-- What keeps a second attempt out. -/
structure InFlightInvariant (s : RuntimeState) : Prop where
  foreign : s.ForeignTerminal
  requested : ∀ attempt ∈ s.attempts, attempt.state ≠ .notRequested
  single : s.AtMostOneInFlight
  present : s.inFlight ≠ [] → s.boundary.isSome
  gate : s.inFlight ≠ [] → s.effect_state = .submitted ∨ s.effect_state = .acknowledged

/-! ## What is in flight -/

/-- An attempt in flight stays in flight, when nothing happens to it. -/
theorem Outcome.ownInFlight {env : Env} {s s' : RuntimeState} {call : Call} {reply : Result Reply}
    (h : Outcome env s call reply s') (attempt : ApplyAttempt) :
    s'.OwnInFlight attempt ↔ s.OwnInFlight attempt := by
  rw [OwnInFlight, OwnInFlight, h.foreign]

/-- The attempts in flight after a call are found among its attempts as before. -/
theorem Outcome.inFlight_eq {env : Env} {s s' : RuntimeState} {call : Call} {reply : Result Reply}
    (h : Outcome env s call reply s') :
    s'.inFlight = s'.attempts.filter fun attempt => s.OwnInFlight attempt := by
  simp only [inFlight, h.ownInFlight]

/-- An acknowledgement that is taken in names the attempt in flight. -/
theorem InFlightInvariant.acknowledged {s : RuntimeState} (h : InFlightInvariant s)
    {ack : ApplyAcknowledgement} {attempt : ApplyAttempt}
    (hcheck : s.checkAcknowledgement ack = .ok attempt) : s.OwnInFlight attempt := by
  obtain ⟨hfind, hterminal⟩ := checkAcknowledgement_ok hcheck
  refine ⟨h.foreign.not_foreign hcheck, ?_⟩
  have hrequested := h.requested attempt (List.mem_of_find?_eq_some hfind)
  have hnot := mt terminal_iff.mpr (by simpa using hterminal)
  by_contra hflight
  exact hnot ⟨hrequested, fun hs => hflight (Or.inl hs), fun ha => hflight (Or.inr ha)⟩

/-- No attempt is in flight where one may be submitted. -/
theorem InFlightInvariant.none_of_mayAttempt {s : RuntimeState} (h : InFlightInvariant s)
    (hmay : mayAttempt s.effect_state = true) : s.inFlight = [] := by
  by_contra hne
  rcases h.gate hne with hstate | hstate <;> simp [hstate, mayAttempt] at hmay

/-- What a submission has checked. -/
theorem checkSubmit_ok {s : RuntimeState} {generation : PlanGeneration} {plan_digest : Digest}
    {plan : ContainmentPlan} (h : s.checkSubmit generation plan_digest = .ok plan) :
    s.findPlan generation = some plan ∧ plan.digest = plan_digest ∧
      mayAttempt s.effect_state = true ∧ ∃ boundary, s.boundary = some boundary ∧
        (s.isCurrentDecision boundary plan = true ∨
          plan.boundary.sameMembers boundary = true) := by
  unfold checkSubmit at h
  split at h
  · exact absurd h (by simp [fail])
  rename_i found hfind
  split at h
  · exact absurd h (by simp [fail])
  rename_i hdigest
  split at h
  · exact absurd h (by simp [fail])
  rename_i boundary hboundary
  simp only [require_bind_eq_ok, pure_eq_ok, Bool.or_eq_true] at h
  obtain ⟨hcurrent, hmay, rfl⟩ := h
  exact ⟨hfind, not_not.mp hdigest, hmay, boundary, hboundary, hcurrent⟩

/-- Where nothing is in flight after a call, the gate has nothing to keep. -/
theorem InFlightInvariant.of_empty {s : RuntimeState} (hforeign : s.ForeignTerminal)
    (hrequested : ∀ attempt ∈ s.attempts, attempt.state ≠ .notRequested)
    (hempty : s.inFlight = []) : InFlightInvariant s where
  foreign := hforeign
  requested := hrequested
  single := by simp [AtMostOneInFlight, hempty]
  present := fun hne => absurd hempty hne
  gate := fun hne => absurd hempty hne

/-- Whatever a call does to an attempt, it is not one that was never requested. -/
theorem Outcome.requested {env : Env} {s s' : RuntimeState} {call : Call} {reply : Result Reply}
    (h : Outcome env s call reply s') (hold : ∀ a ∈ s.attempts, a.state ≠ .notRequested) :
    ∀ a ∈ s'.attempts, a.state ≠ .notRequested := by
  intro a ha
  have hafter := h.attempts
  generalize s'.attempts = attempts at ha hafter
  cases hafter with
  | same => exact hold a ha
  | evicted _ bound => exact hold a (mem_of_mem_dropExcess ha)
  | submitted =>
    rcases List.mem_append.mp (mem_of_mem_dropExcess ha) with hmem | hmem
    · exact hold a hmem
    · obtain rfl := List.mem_singleton.mp hmem
      simp [newAttempt]
  | acknowledged attempt' checked taken =>
    rcases mem_updateFirst ha with hmem | ⟨-, -, rfl⟩
    · exact hold a hmem
    · rcases taken with rfl | rfl
      · simp [ApplyAttempt.mismatched]
      · simp only [ApplyAttempt.acknowledged]
        split <;> simp
  | verified =>
    rcases mem_updateFirst ha with hmem | ⟨-, -, rfl⟩
    · exact hold a hmem
    · exact (terminal_iff.mp (observed_terminal _ _ _)).1

/-- A call that keeps the effect state and the boundary, and adds no attempt in flight. -/
theorem InFlightInvariant.of_sublist {env : Env} {s s' : RuntimeState} {call : Call}
    {reply : Result Reply} (h : InFlightInvariant s) (ho : Outcome env s call reply s')
    (hsub : s'.attempts.Sublist s.attempts) (heffect : s'.effect_state = s.effect_state)
    (hboundary : s'.boundary = s.boundary) : InFlightInvariant s' := by
  have hflight : s'.inFlight.Sublist s.inFlight := by
    rw [ho.inFlight_eq, inFlight]
    exact hsub.filter _
  have hne : s'.inFlight ≠ [] → s.inFlight ≠ [] := by
    intro hne hempty
    rw [hempty] at hflight
    exact hne (List.sublist_nil.mp hflight)
  refine ⟨ho.foreignTerminal h.foreign, ho.requested h.requested,
    hflight.length_le.trans h.single, fun hn => ?_, fun hn => ?_⟩
  · rw [hboundary]
    exact h.present (hne hn)
  · rw [heffect]
    exact h.gate (hne hn)

/-! ## What a report does to what is in flight -/

section Reports

variable {s : RuntimeState} {id : ApplyAttemptId} {attempt attempt' : ApplyAttempt}

/-- Settling the attempt in flight leaves none. -/
theorem inFlight_settled (hsingle : s.AtMostOneInFlight) (hfind : s.findAttempt id = some attempt)
    (hold : s.OwnInFlight attempt) (hnew : ¬ s.OwnInFlight attempt') :
    (s.setAttempt id attempt').inFlight = [] := by
  have hlength : (s.setAttempt id attempt').inFlight.length + 1 = s.inFlight.length :=
    length_filter_updateFirst hfind (decide_eq_true hold) (decide_eq_false hnew)
  have hle : s.inFlight.length ≤ 1 := hsingle
  exact List.length_eq_zero_iff.mp (by omega)

/-- Updating an attempt that is not in flight, before and after, leaves those in flight alone. -/
theorem inFlight_other (hfind : s.findAttempt id = some attempt) (hold : ¬ s.OwnInFlight attempt)
    (hnew : ¬ s.OwnInFlight attempt') : (s.setAttempt id attempt').inFlight = s.inFlight := by
  refine filter_updateFirst fun a ha => ?_
  obtain rfl : a = attempt := Option.some.inj (ha.symm.trans hfind)
  exact ⟨decide_eq_false hold, decide_eq_false hnew⟩

/-- Two attempts in flight are the same. -/
theorem eq_of_inFlight (hsingle : s.AtMostOneInFlight) {a b : ApplyAttempt} (ha : a ∈ s.inFlight)
    (hb : b ∈ s.inFlight) : a = b := by
  unfold AtMostOneInFlight at hsingle
  cases hflight : s.inFlight with
  | nil => exact absurd ha (by simp [hflight])
  | cons c rest =>
    rw [hflight] at hsingle ha hb
    obtain rfl : rest = [] := List.length_eq_zero_iff.mp (by simpa using hsingle)
    rw [List.mem_singleton.mp ha, List.mem_singleton.mp hb]

/-- The derived effect state is the state of an attempt that the derivation sees. -/
theorem derivedEffectState_of_sees
    (h : s.Sees s.effect_requires_reverification s.boundary_plan attempt)
    (hboundary : s.boundary.isSome) : s.derivedEffectState = attempt.state := by
  obtain ⟨hflag, hnewest⟩ := h
  have hpresent : ¬ (s.boundary_plan = 0 ∧ s.boundary = none) := by
    rintro ⟨-, hnone⟩
    simp [hnone] at hboundary
  rw [derivedEffectState, if_neg (by simp [hflag]), if_neg hpresent, hnewest]

/-- A derivation that sees the updated attempt sees the update. -/
theorem RuntimeState.Sees.setAttempt_self {flag : Bool} {plan : PlanGeneration} (h : s.Sees flag plan attempt)
    (hid : attempt.id = id) (hid' : attempt'.id = id) :
    (s.setAttempt id attempt').Sees flag plan attempt' := by
  refine ⟨h.1, ?_⟩
  change newestAttempt plan (updateFirst _ _ s.attempts) = _
  rw [newestAttempt_updateFirst plan s.attempts hid', h.2, Option.map_some, if_pos hid]

/-- A derivation that sees another attempt still sees it. -/
theorem RuntimeState.Sees.setAttempt_other {flag : Bool} {plan : PlanGeneration} {other : ApplyAttempt}
    (h : s.Sees flag plan other) (hfind : s.findAttempt id = some attempt) (hne : other ≠ attempt)
    (hid' : attempt'.id = id) : (s.setAttempt id attempt').Sees flag plan other := by
  refine ⟨h.1, ?_⟩
  have hother : other.id ≠ id := by
    rintro rfl
    exact hne (Option.some.inj ((newestAttempt_find h.2).2.symm.trans hfind))
  change newestAttempt plan (updateFirst _ _ s.attempts) = _
  rw [newestAttempt_updateFirst plan s.attempts hid', h.2, Option.map_some, if_neg hother]

end Reports

/-- An attempt that is found has the identity it is looked for. -/
theorem findAttempt_id {s : RuntimeState} {id : ApplyAttemptId} {attempt : ApplyAttempt}
    (h : s.findAttempt id = some attempt) : attempt.id = id := by
  simpa using List.find?_some h

/-- A report keeps the identity of its attempt. -/
theorem observed_id {attempt : ApplyAttempt} {report : EffectVerification} {now : UInt64} :
    (attempt.observed report now).id = attempt.id := rfl

/-- An acknowledgement keeps the identity of its attempt. -/
theorem acknowledged_id {attempt : ApplyAttempt} {ack : ApplyAcknowledgement} {now : UInt64} :
    (attempt.acknowledged ack now).id = attempt.id := rfl

/-- What is in flight is read off the table and the incarnation. -/
theorem inFlight_congr {s s' : RuntimeState} (hattempts : s'.attempts = s.attempts)
    (hepoch : s'.epoch = s.epoch) (hboot : s'.boot = s.boot) : s'.inFlight = s.inFlight := by
  have hown : ∀ a, s'.OwnInFlight a ↔ s.OwnInFlight a := by
    intro a
    rw [OwnInFlight, OwnInFlight, Foreign, Foreign, hepoch, hboot]
  simp only [inFlight, hown, hattempts]

/-- An effect report leaves nothing in flight, or what was in flight besides its own attempt. -/
theorem inFlight_observed {s : RuntimeState} (h : InFlightInvariant s) {report : EffectVerification}
    {attempt : ApplyAttempt} (hcheck : s.checkVerification report = .ok attempt) (now : UInt64) :
    (s.setAttempt report.id (attempt.observed report now)).inFlight = [] ∨
      (s.setAttempt report.id (attempt.observed report now)).inFlight = s.inFlight ∧
        attempt ∉ s.inFlight := by
  obtain ⟨hfind, -⟩ := checkVerification_ok_iff.mp hcheck
  have hnew : ¬ s.OwnInFlight (attempt.observed report now) := by
    obtain ⟨-, hsubmitted, hacknowledged⟩ := terminal_iff.mp (observed_terminal attempt report now)
    rintro ⟨-, hstate | hstate⟩
    · exact hsubmitted hstate
    · exact hacknowledged hstate
  by_cases hold : s.OwnInFlight attempt
  · exact Or.inl (inFlight_settled h.single hfind hold hnew)
  · exact Or.inr ⟨inFlight_other hfind hold hnew, fun hmem => hold (by
      simpa using (List.mem_filter.mp hmem).2)⟩

/-- An acknowledgement of another boundary settles the attempt. -/
theorem not_inFlight_mismatched (s : RuntimeState) (attempt : ApplyAttempt) :
    ¬ s.OwnInFlight attempt.mismatched := by
  rintro ⟨-, hstate | hstate⟩ <;> simp [ApplyAttempt.mismatched] at hstate

/-- Where an acknowledgement is taken in, an attempt is in flight. -/
theorem InFlightInvariant.acknowledged_ne {s : RuntimeState} (h : InFlightInvariant s)
    {ack : ApplyAcknowledgement} {attempt : ApplyAttempt}
    (hcheck : s.checkAcknowledgement ack = .ok attempt) : s.inFlight ≠ [] := by
  have hmem : attempt ∈ s.inFlight :=
    List.mem_filter.mpr ⟨List.mem_of_find?_eq_some (checkAcknowledgement_ok hcheck).1,
      decide_eq_true (h.acknowledged hcheck)⟩
  exact List.ne_nil_of_mem hmem

/-- An acknowledgement leaves at most one attempt in flight. -/
theorem InFlightInvariant.single_acknowledged {s : RuntimeState} (h : InFlightInvariant s)
    {ack : ApplyAcknowledgement} {attempt : ApplyAttempt}
    (hcheck : s.checkAcknowledgement ack = .ok attempt) (attempt' : ApplyAttempt) :
    (s.setAttempt ack.id attempt').AtMostOneInFlight :=
  (length_filter_updateFirst_le (checkAcknowledgement_ok hcheck).1
    (decide_eq_true (h.acknowledged hcheck))).trans h.single

/-- An effect report on another attempt that does not lose sight of the one in flight leaves a
derivation that sees it. -/
theorem InFlightInvariant.seen {env : Env} {s : RuntimeState} (h : InFlightInvariant s)
    {report : EffectVerification} {attempt : ApplyAttempt}
    (hcheck : s.checkVerification report = .ok attempt)
    (hcommittable : s.Committable env (encodeAttempt (attempt.observed report env.now_millis)))
    (hsees : ¬ LosesSight s env (.verifyEffect report)) (hout : attempt ∉ s.inFlight)
    (hne : s.inFlight ≠ []) :
    ∃ other, (other.state = .submitted ∨ other.state = .acknowledged) ∧ s.boundary.isSome ∧
      (s.setAttempt report.id (attempt.observed report env.now_millis)).Sees
        (s.effect_requires_reverification && !decide (report.Confirms attempt))
        (s.planAfter report attempt) other := by
  obtain ⟨other, hmem⟩ := List.exists_mem_of_ne_nil _ hne
  obtain ⟨hfind, -⟩ := checkVerification_ok_iff.mp hcheck
  have hother : other ≠ attempt := by
    rintro rfl
    exact hout hmem
  have hseen : s.Sees (s.effect_requires_reverification && !decide (report.Confirms attempt))
      (s.planAfter report attempt) other := by
    by_contra hlost
    exact hsees ⟨attempt, mem_toOption.mpr hcheck, hcommittable, other, hmem, hother, hlost⟩
  have hstate : s.OwnInFlight other := by simpa using (List.mem_filter.mp hmem).2
  exact ⟨other, hstate.2, h.present hne,
    hseen.setAttempt_other hfind hother (observed_id.trans (findAttempt_id hfind))⟩

/-- Without a report that loses sight of the attempt in flight, every call keeps a second one out. -/
theorem Outcome.inFlightInvariant {env : Env} {s s' : RuntimeState} {call : Call}
    {reply : Result Reply} (h : InFlightInvariant s) (hsees : ¬ LosesSight s env call)
    (ho : Outcome env s call reply s') : InFlightInvariant s' := by
  have hsame := fun hsub heffect hboundary => h.of_sublist ho hsub heffect hboundary
  have hforeign := ho.foreignTerminal h.foreign
  have hrequested := ho.requested h.requested
  have hflight := ho.inFlight_eq
  cases ho with
  | detected => exact hsame (dropExcess_sublist _ _) rfl rfl
  | planned => exact hsame (dropExcess_sublist _ _) rfl rfl
  | transitionFailed _ _ counted =>
    rcases counted with rfl | rfl <;> exact hsame (List.Sublist.refl _) rfl rfl
  | transitionRefused _ _ _ counted =>
    rcases counted with rfl | rfl <;> exact hsame (dropExcess_sublist _ _) rfl rfl
  | transitionAccepted _ _ checked =>
    -- the boundary in force is verified, so nothing is in flight
    have hempty : s.inFlight = [] := by
      by_contra hne
      have hverified := (checkTransition_passed _ checked).verified (h.present hne)
      rcases h.gate hne with hstate | hstate <;>
        simp [countTransition, hstate, isVerifiedEffect] at hverified
    refine .of_empty hforeign hrequested (List.sublist_nil.mp ?_)
    rw [hflight, ← hempty]
    exact (dropExcess_sublist _ _).filter _
  | submitted _ checked =>
    obtain ⟨-, -, hmay, boundary, hboundary, -⟩ := checkSubmit_ok checked
    have hempty := h.none_of_mayAttempt hmay
    refine ⟨hforeign, hrequested, ?_, fun _ => by simp [publishAttempt, evictBoundedTables,
      committed, countAttempt, hboundary], fun _ => Or.inl rfl⟩
    rw [AtMostOneInFlight, hflight]
    refine ((dropExcess_sublist _ _).filter _).length_le.trans ?_
    change (List.filter _ (s.attempts ++ [_])).length ≤ 1
    rw [List.filter_append, List.length_append, ← inFlight, hempty]
    exact (Nat.zero_add _).le.trans (List.length_filter_le _ _)
  | @ackMismatched ack attempt _ _ checked taken =>
    have hempty := inFlight_settled h.single (checkAcknowledgement_ok checked).1
      (h.acknowledged checked) (not_inFlight_mismatched s attempt)
    rcases taken with rfl | ⟨-, rfl⟩ <;> exact .of_empty hforeign hrequested hempty
  | ackFailed _ checked =>
    exact ⟨hforeign, hrequested, h.single_acknowledged checked _,
      fun _ => h.present (h.acknowledged_ne checked), fun _ => h.gate (h.acknowledged_ne checked)⟩
  | @acknowledged ack attempt checked matches_ committable =>
    refine ⟨hforeign, hrequested, h.single_acknowledged checked _,
      fun _ => h.present (h.acknowledged_ne checked), fun hne => ?_⟩
    obtain ⟨hfind, -⟩ := checkAcknowledgement_ok checked
    cases haccepted : ack.accepted with
    | false =>
      -- a refused attempt has failed, and nothing else was in flight
      refine absurd (inFlight_settled h.single hfind (h.acknowledged checked) ?_) hne
      rintro ⟨-, hstate | hstate⟩ <;> simp [ApplyAttempt.acknowledged, haccepted] at hstate
    | true =>
      have hseen : s.Sees s.effect_requires_reverification s.boundary_plan attempt := by
        by_contra hlost
        exact hsees ⟨attempt, mem_toOption.mpr checked,
          ⟨matches_, haccepted, committable⟩, hlost⟩
      have hderived := derivedEffectState_of_sees
        (s := (s.setAttempt ack.id (attempt.acknowledged ack env.now_millis)).committed
          .applyAcknowledgement (encodeAttempt (attempt.acknowledged ack env.now_millis)))
        (hseen.setAttempt_self (findAttempt_id hfind)
          (acknowledged_id.trans (findAttempt_id hfind)))
        (h.present (h.acknowledged_ne checked))
      right
      rw [recomputeEffectState, hderived]
      simp [ApplyAttempt.acknowledged, haccepted]
  | verifyFailed _ checked =>
    rcases inFlight_observed h checked env.now_millis with hempty | ⟨heq, -⟩
    · exact .of_empty hforeign hrequested hempty
    · exact ⟨hforeign, hrequested, by rw [AtMostOneInFlight, heq]; exact h.single,
        fun hne => h.present (heq ▸ hne), fun hne => h.gate (heq ▸ hne)⟩
  | @verifyMismatched report attempt _ checked mismatch committable =>
    have hconfirms := not_confirms_of_mismatch mismatch
    have hplan : s.planAfter report attempt = s.boundary_plan := if_neg fun hc => hconfirms hc.1
    rcases inFlight_observed h checked env.now_millis with hempty | ⟨heq, hout⟩
    · exact .of_empty hforeign hrequested hempty
    · refine ⟨hforeign, hrequested, by rw [AtMostOneInFlight]; exact heq ▸ h.single,
        fun hne => h.present (heq ▸ hne), fun hne => ?_⟩
      obtain ⟨other, hstate, hboundary, hseen⟩ :=
        h.seen checked committable hsees hout (heq ▸ hne)
      rw [hplan, decide_eq_false hconfirms, Bool.not_false, Bool.and_true] at hseen
      have hderived := derivedEffectState_of_sees
        (s := (s.setAttempt report.id (attempt.observed report env.now_millis)).committed
          .effectVerification (encodeAttempt (attempt.observed report env.now_millis)))
        hseen hboundary
      rw [recomputeEffectState, hderived]
      exact hstate
  | @verified report attempt checked _ committable =>
    generalize hX : (s.setAttempt report.id (attempt.observed report env.now_millis)).committed
      .effectVerification (encodeAttempt (attempt.observed report env.now_millis)) = X
      at hforeign hrequested
    obtain ⟨hflag, hplan, hpresent⟩ := adoptVerified_observed X report attempt env.now_millis
    have hX' : X.boundary = s.boundary ∧
        X.effect_requires_reverification = s.effect_requires_reverification ∧
        X.planAfter report attempt = s.planAfter report attempt := by
      subst hX
      exact ⟨rfl, rfl, rfl⟩
    rw [hX'.1] at hpresent
    rw [hX'.2.1] at hflag
    rw [hX'.2.2] at hplan
    have hadopted : (X.adoptVerified (attempt.observed report
        env.now_millis)).recomputeEffectState.inFlight =
          (s.setAttempt report.id (attempt.observed report env.now_millis)).inFlight := by
      subst hX
      exact inFlight_congr (by simp [recomputeEffectState, committed])
        (by simp [recomputeEffectState, committed]) (by simp [recomputeEffectState, committed])
    rcases inFlight_observed h checked env.now_millis with hempty | ⟨heq, hout⟩
    · exact .of_empty hforeign hrequested (hadopted.trans hempty)
    · have hne : ∀ hne : (X.adoptVerified (attempt.observed report
          env.now_millis)).recomputeEffectState.inFlight ≠ [], s.inFlight ≠ [] :=
        fun hne => by rwa [hadopted, heq] at hne
      refine ⟨hforeign, hrequested, ?_, fun hn => ?_, fun hn => ?_⟩
      · rw [AtMostOneInFlight, hadopted, heq]
        exact h.single
      · exact hpresent.trans (h.present (hne hn))
      · obtain ⟨other, hstate, hboundary, hseen⟩ :=
          h.seen checked committable hsees hout (hne hn)
        have hsees' : (X.adoptVerified (attempt.observed report env.now_millis)).Sees
            (X.adoptVerified (attempt.observed report
              env.now_millis)).effect_requires_reverification
            (X.adoptVerified (attempt.observed report env.now_millis)).boundary_plan other := by
          rw [hflag, hplan]
          refine ⟨hseen.1, ?_⟩
          rw [adoptVerified_attempts, ← hX]
          exact hseen.2
        have hderived := derivedEffectState_of_sees hsees' (hpresent.trans hboundary)
        rw [recomputeEffectState, hderived]
        exact hstate
  | _ => exact hsame (List.Sublist.refl _) rfl rfl

/-! ## Runs -/

/-- In every state that a run reaches at most one attempt of the incarnation is in flight, if no
report loses sight of it. -/
theorem at_most_one_in_flight {events : List Event}
    (h : Runs.Along System.next (OnCall fun s env call => ¬ LosesSight s env call) {} events) :
    Live AtMostOneInFlight (Runs.exec System.next {} events) := by
  have hstart : Live InFlightInvariant {} := by
    intro s hs
    exact absurd hs (by simp)
  have hopen : ∀ s₀ boot s, Started (RuntimeState.incarnate s₀ boot) s → InFlightInvariant s := by
    intro s₀ boot s hstarted
    have hterminal := terminal_of_started hstarted
    refine .of_empty (fun a ha _ => hterminal a ha)
      (fun a ha => (terminal_iff.mp (hterminal a ha)).1) (List.filter_eq_nil_iff.mpr ?_)
    intro a ha
    obtain ⟨-, hsubmitted, hacknowledged⟩ := terminal_iff.mp (hterminal a ha)
    simp [OwnInFlight, hsubmitted, hacknowledged]
  have hlive := Runs.invariant (I := Live InFlightInvariant) (fun sys event hlive hsees =>
    Live.step hopen (fun _ _ _ _ _ hs hp ho => ho.inFlightInvariant hs hp) hlive hsees) hstart h
  exact fun s hs => (hlive s hs).single

/-- The run that restarts with an attempt in flight, applies the boundary again and has it
verified. -/
theorem at_most_one_in_flight_restart :
    Live AtMostOneInFlight (Runs.exec System.next {}
      (Sample.reasserted |> Sample.thenVerify ⟨1, 2⟩ 2 1 .applied)) :=
  at_most_one_in_flight (by decide +kernel)

/-- When the attempt after the restart is acknowledged, the flag hides it and a second one is
submitted. -/
theorem two_in_flight :
    ¬ ∀ events, Live AtMostOneInFlight (Runs.exec System.next {} events) := by
  intro h
  have hlive := h
    (Sample.reasserted |> Sample.thenAcknowledge ⟨1, 2⟩ 2 1 true |> Sample.thenSubmit 1 2)
  revert hlive
  decide +kernel

end Fcfn
