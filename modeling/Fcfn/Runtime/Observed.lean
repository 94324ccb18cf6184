import Fcfn.Runtime.Derived

/-!
# Observed effects

A boundary is VERIFIED_APPLIED when the newest attempt of its plan is, and only an effect report
makes an attempt so. The table of attempts does not say whose report that was: it holds attempts of
earlier incarnations, and a report is taken into it before it is recorded. `Effects` notes what the
live incarnation handed over and which of its accepted reports observed a boundary applied;
`verified_effect_observed` compares that with the effect state, where `CountsOwn` holds of the
calls. -/

namespace Fcfn

open Words Stateful RuntimeState DurableStore Tables

/-! ## What was handed over and observed -/

/-- What a submission hands over. No report changes it. -/
structure Intent where
  id : ApplyAttemptId
  plan_digest : Digest
  boundary_digest : Digest
  boundary_generation : BoundaryGeneration
  epoch : CoordinatorEpoch
  boot : BootIdentity
  submitted_sequence : Sequence
  submitted_at_millis : UInt64
  deriving DecidableEq

/-- The intent of an attempt. -/
def ApplyAttempt.intent (attempt : ApplyAttempt) : Intent :=
  ⟨attempt.id, attempt.plan_digest, attempt.boundary_digest, attempt.boundary_generation,
    attempt.epoch, attempt.boot, attempt.submitted_sequence, attempt.submitted_at_millis⟩

/-- What the live incarnation has handed over, and the accepted reports that observed a boundary
applied, each with the intent of its attempt. -/
structure Effects where
  submitted : List Intent := []
  applied : List (EffectVerification × Intent) := []

/-- The intent that a reply says was handed over. -/
def Reply.handedOver : Result Reply → Option Intent
  | .ok (.submitted attempt) => some attempt.intent
  | _ => none

/-- The report of an accepted call that observed a boundary applied. -/
def Call.sawApplied : Call → Result Reply → Option (EffectVerification × Intent)
  | .verifyEffect report, .ok (.verified attempt) =>
    if report.observation = .applied then some (report, attempt.intent) else none
  | _, _ => none

/-- What a call adds. -/
def Effects.called (effects : Effects) (call : Call) (reply : Result Reply) : Effects where
  submitted := effects.submitted ++ (Reply.handedOver reply).toList
  applied := effects.applied ++ (call.sawApplied reply).toList

/-- Note what a step adds. When the process stops, the next incarnation starts with nothing. -/
def noteEffects (sys : System) (event : Event) (effects : Effects) : Effects :=
  match event with
  | .open_ _ _ _ => effects
  | .crash _ => {}
  | .call _ call => effects.called call (sys.reply event)

namespace RuntimeState

/-- The boundary in force, and those of the retained plans. -/
def planBoundaries (s : RuntimeState) : List ContainmentBoundary :=
  s.boundary.toList ++ s.plans.map ContainmentPlan.boundary

end RuntimeState

/-- When the boundary in force is VERIFIED_APPLIED, an accepted report on an attempt of this
incarnation observed a boundary with its members applied. -/
def EffectObserved (effects : Effects) (s : RuntimeState) : Prop :=
  ∀ current ∈ s.boundary, s.effect_state = .verifiedApplied →
    ∃ seen ∈ effects.applied, seen.2 ∈ effects.submitted ∧
      ∃ boundary ∈ s.planBoundaries, boundary.sameMembers current = true ∧
        seen.1.observed_boundary_digest = boundary.digest

instance EffectObserved.instDecidable (effects : Effects) (s : RuntimeState) :
    Decidable (EffectObserved effects s) :=
  Option.decidableForallMem s.boundary

/-! ## Whose report counts -/

/-- A report that observed the boundary of an attempt applied. -/
def EffectVerification.SeesApplied (report : EffectVerification) (attempt : ApplyAttempt) : Prop :=
  report.observation = .applied ∧ report.observed_boundary_digest = attempt.boundary_digest

instance EffectVerification.SeesApplied.instDecidable (report : EffectVerification)
    (attempt : ApplyAttempt) : Decidable (report.SeesApplied attempt) :=
  inferInstanceAs (Decidable (_ ∧ _))

namespace RuntimeState

/-- An attempt of this incarnation, for a boundary. -/
def Intended (s : RuntimeState) (boundary : Option ContainmentBoundary) (attempt : ApplyAttempt) :
    Prop :=
  ¬ s.Foreign attempt ∧ ∀ b ∈ boundary, attempt.boundary_digest = b.digest

instance Intended.instDecidable (s : RuntimeState) (boundary : Option ContainmentBoundary)
    (attempt : ApplyAttempt) : Decidable (s.Intended boundary attempt) :=
  inferInstanceAs (Decidable (_ ∧ ∀ b ∈ boundary, attempt.boundary_digest = b.digest))

/-- The newest attempt of a plan, if it was observed applied or is the one that is being observed,
is one of this incarnation and for the boundary. -/
def TrustsNewest (s : RuntimeState) (plan : PlanGeneration) (boundary : Option ContainmentBoundary)
    (observed : Option ApplyAttemptId) : Prop :=
  ∀ newest ∈ newestAttempt plan s.attempts,
    newest.state = .verifiedApplied ∨ observed = some newest.id → s.Intended boundary newest

instance TrustsNewest.instDecidable (s : RuntimeState) (plan : PlanGeneration)
    (boundary : Option ContainmentBoundary) (observed : Option ApplyAttemptId) :
    Decidable (s.TrustsNewest plan boundary observed) :=
  inferInstanceAs (Decidable (∀ newest ∈ newestAttempt plan s.attempts, _))

/-- The boundary in force once a report on an attempt has been taken in. -/
def boundaryAfter (s : RuntimeState) (report : EffectVerification) (attempt : ApplyAttempt) :
    Option ContainmentBoundary :=
  if report.Confirms attempt ∧ s.Adoptable attempt then
    (s.findPlan attempt.id.plan).map ContainmentPlan.boundary
  else s.boundary

end RuntimeState

/-- The effect state is derived from what this incarnation intended and was told. When a call is
recorded and leaves the flag clear, the newest attempt of the plan in force is one to be trusted; and
a report that observes an attempt of this incarnation applied is recorded. -/
def CountsOwn (s : RuntimeState) (env : Env) : Call → Prop
  | .acknowledge ack =>
    ∀ attempt ∈ (s.checkAcknowledgement ack).toOption,
      ack.observed_boundary_digest = attempt.boundary_digest →
      s.Committable env (encodeAttempt (attempt.acknowledged ack env.now_millis)) →
      s.effect_requires_reverification = false →
        s.TrustsNewest s.boundary_plan s.boundary none
  | .verifyEffect report =>
    ∀ attempt ∈ (s.checkVerification report).toOption,
      (report.SeesApplied attempt → ¬ s.Foreign attempt →
        s.Committable env (encodeAttempt (attempt.observed report env.now_millis))) ∧
      (s.Committable env (encodeAttempt (attempt.observed report env.now_millis)) →
        (s.effect_requires_reverification = true → report.Confirms attempt) →
          s.TrustsNewest (s.planAfter report attempt) (s.boundaryAfter report attempt)
            (if report.SeesApplied attempt then some report.id else none))
  | _ => True

instance CountsOwn.instDecidable (s : RuntimeState) (env : Env) (call : Call) :
    Decidable (CountsOwn s env call) :=
  match call with
  | .acknowledge ack =>
    inferInstanceAs (Decidable (∀ attempt ∈ (s.checkAcknowledgement ack).toOption, _))
  | .verifyEffect report =>
    inferInstanceAs (Decidable (∀ attempt ∈ (s.checkVerification report).toOption, _))
  | .applyTopology _ | .applyPolicy _ | .recordDetection _ | .authorize | .plan _ | .transition _
  | .submitApply _ _ _ | .checkpoint => inferInstanceAs (Decidable True)

/-! ## What a report makes of an attempt -/

section Report

variable {attempt : ApplyAttempt}

@[simp] theorem intent_mismatched : attempt.mismatched.intent = attempt.intent := rfl

@[simp] theorem intent_acknowledged (ack : ApplyAcknowledgement) (now : UInt64) :
    (attempt.acknowledged ack now).intent = attempt.intent := rfl

@[simp] theorem intent_observed (report : EffectVerification) (now : UInt64) :
    (attempt.observed report now).intent = attempt.intent := rfl

/-- An attempt is VERIFIED_APPLIED after a report that observed its boundary applied. -/
theorem observed_applied_iff (report : EffectVerification) (now : UInt64) :
    (attempt.observed report now).state = .verifiedApplied ↔ report.SeesApplied attempt := by
  rw [observed_state]
  unfold EffectVerification.SeesApplied
  by_cases hdigest : report.observed_boundary_digest = attempt.boundary_digest <;>
    cases report.observation <;> simp [hdigest, observedState]

/-- No acknowledgement makes an attempt VERIFIED_APPLIED. -/
theorem acknowledged_not_applied (ack : ApplyAcknowledgement) (now : UInt64) :
    (attempt.acknowledged ack now).state ≠ .verifiedApplied := by
  cases hacc : ack.accepted <;> simp [ApplyAttempt.acknowledged, hacc]

/-- A report that sees an attempt applied confirms it. -/
theorem EffectVerification.SeesApplied.confirms {report : EffectVerification}
    (h : report.SeesApplied attempt) : report.Confirms attempt :=
  ⟨Or.inl h.1, h.2⟩

/-- A report that sees an attempt applied is no mismatch. -/
theorem EffectVerification.SeesApplied.matches_ {report : EffectVerification}
    (h : report.SeesApplied attempt) :
    mismatchText report.observation
      (report.observed_boundary_digest = attempt.boundary_digest) = none := by
  simp [mismatchText, h.1, h.2]

end Report

/-- A report that passes the checks, observes the boundary of its attempt and can be recorded is
accepted. -/
theorem verifyEffect_accepted {env : Env} {s : RuntimeState} {report : EffectVerification}
    {attempt : ApplyAttempt} (hcheck : s.checkVerification report = .ok attempt)
    (hmatches : mismatchText report.observation
      (report.observed_boundary_digest = attempt.boundary_digest) = none)
    (hcommittable : s.Committable env (encodeAttempt (attempt.observed report env.now_millis))) :
    (exec (perform env (.verifyEffect report)) s).1 =
      .ok (.verified (attempt.observed report env.now_millis)) := by
  simp only [perform, exec_map, verifyEffect, exec_bind, exec_get, exec_lift, hcheck, exec_modify]
  rcases exec_commit env .effectVerification
    (encodeAttempt (attempt.observed report env.now_millis))
      (s.setAttempt report.id (attempt.observed report env.now_millis)) with ⟨hc, -⟩ | ⟨-, hnot⟩
  · simp only [hc, hmatches, exec_bind, exec_modify, exec_pure]
    rfl
  · exact absurd hcommittable hnot

/-- Adopting the plan of a verified attempt puts its boundary in force. -/
theorem adoptVerified_boundary (s : RuntimeState) (report : EffectVerification)
    (attempt : ApplyAttempt) (now : UInt64) :
    (s.adoptVerified (attempt.observed report now)).boundary = s.boundaryAfter report attempt := by
  have hverified := isVerified_observed attempt report now
  by_cases hconfirms : report.Confirms attempt
  · rw [decide_eq_true hconfirms] at hverified
    rcases adoptVerified_of_verified (s := s) hverified with
      ⟨hnot, heq⟩ | ⟨plan, boundary, hplan, hboundary, hsame, heq⟩
    · rw [heq, boundaryAfter, if_neg fun h => hnot h.2]
    · have hadopt : s.Adoptable attempt := ⟨plan, hplan, by simp [hboundary, hsame]⟩
      have hfound : s.findPlan attempt.id.plan = some plan := hplan
      rw [heq, boundaryAfter, if_pos ⟨hconfirms, hadopt⟩, hfound]
      rfl
  · rw [decide_eq_false hconfirms] at hverified
    rw [adoptVerified_of_not hverified, boundaryAfter, if_neg fun h => hconfirms h.1]

/-! ## What the effect state rests on -/

/-- The effects of the live incarnation are noted: what it has in the table, and what the effect
state says of the boundary in force. -/
structure EffectsNoted (effects : Effects) (s : RuntimeState) : Prop where
  submitted : ∀ attempt ∈ s.attempts, ¬ s.Foreign attempt → attempt.intent ∈ effects.submitted
  applied : ∀ attempt ∈ s.attempts, ¬ s.Foreign attempt → attempt.state = .verifiedApplied →
    ∃ seen ∈ effects.applied, seen.2 = attempt.intent ∧
      seen.1.observed_boundary_digest = attempt.boundary_digest
  effect : ∀ current ∈ s.boundary, s.effect_state = .verifiedApplied →
    ∃ seen ∈ effects.applied, seen.2 ∈ effects.submitted ∧
      seen.1.observed_boundary_digest = current.digest

/-- Where the effects are noted, the effect was observed. -/
theorem EffectsNoted.observed {effects : Effects} {s : RuntimeState} (h : EffectsNoted effects s) :
    EffectObserved effects s := by
  intro current hcurrent happlied
  obtain ⟨seen, hseen, hsubmitted, hdigest⟩ := h.effect current hcurrent happlied
  refine ⟨seen, hseen, hsubmitted, current, ?_, ?_, hdigest⟩
  · rw [planBoundaries, Option.mem_def.mp hcurrent]
    exact List.mem_append_left _ (List.mem_singleton_self _)
  · rw [ContainmentBoundary.sameMembers, beq_self_eq_true]

/-- Where an attempt in the table after a call comes from. -/
theorem Outcome.attempt_cases {env : Env} {s s' : RuntimeState} {call : Call} {reply : Result Reply}
    (h : Outcome env s call reply s') {attempt : ApplyAttempt} (hmem : attempt ∈ s'.attempts) :
    attempt ∈ s.attempts ∨ (reply = .ok (.submitted attempt) ∧ attempt.state = .submitted) ∨
      ∃ before ∈ s.attempts, before.intent = attempt.intent ∧
        (attempt.state = .verifiedApplied → ∃ report, call = .verifyEffect report ∧
          s.checkVerification report = .ok before ∧
          attempt = before.observed report env.now_millis) := by
  rcases h.mem_attempts hmem with hold | hwrites
  · exact Or.inl hold
  cases hwrites with
  | submitted =>
    cases h with
    | submitted =>
      rcases List.mem_append.mp (mem_of_mem_dropExcess hmem) with hold | hnew
      · exact Or.inl hold
      · rw [List.mem_singleton.mp hnew]
        exact Or.inr (Or.inl ⟨rfl, rfl⟩)
    | _ => exact Or.inl hmem
  | acknowledged attempt' checked taken =>
    refine Or.inr (Or.inr ⟨_, List.mem_of_find?_eq_some (checkAcknowledgement_ok checked).1, ?_⟩)
    rcases taken with rfl | rfl
    · exact ⟨rfl, fun happlied => absurd happlied (by simp [ApplyAttempt.mismatched])⟩
    · exact ⟨rfl, fun happlied => absurd happlied (acknowledged_not_applied _ _)⟩
  | verified checked =>
    exact Or.inr (Or.inr ⟨_, List.mem_of_find?_eq_some (checkVerification_ok_iff.mp checked).1, rfl,
      fun _ => ⟨_, rfl, checked, rfl⟩⟩)

/-! ## Calls -/

/-- What a VERIFIED_APPLIED derived state says of the newest attempt of the plan in force. -/
theorem newest_of_derived {s : RuntimeState} (h : s.derivedEffectState = .verifiedApplied) :
    s.effect_requires_reverification = false ∧
      ∃ newest, newestAttempt s.boundary_plan s.attempts = some newest ∧
        newest.state = .verifiedApplied := by
  rw [derivedEffectState_eq] at h
  split at h
  · exact absurd h (by simp)
  rename_i hflag
  split at h
  · exact absurd h (by simp)
  refine ⟨by simpa using hflag, ?_⟩
  unfold attemptedState at h
  cases hnewest : newestAttempt s.boundary_plan s.attempts with
  | none => exact absurd h (by simp [hnewest])
  | some newest => exact ⟨newest, rfl, by simpa [hnewest] using h⟩

/-- The newest attempt of a plan once an attempt has been changed under its identity: the changed one,
if the attempt was the newest, or the same as before. -/
theorem newestAttempt_setAttempt {s : RuntimeState} {id : ApplyAttemptId} {plan : PlanGeneration}
    {attempt attempt' newest' : ApplyAttempt} (hfind : s.findAttempt id = some attempt)
    (hid : attempt'.id = id)
    (h : newestAttempt plan (s.setAttempt id attempt').attempts = some newest') :
    (newestAttempt plan s.attempts = some attempt ∧ newest' = attempt') ∨
      newestAttempt plan s.attempts = some newest' := by
  have hattempts : newestAttempt plan (s.setAttempt id attempt').attempts =
      (newestAttempt plan s.attempts).map fun n => if n.id = id then attempt' else n :=
    newestAttempt_updateFirst plan s.attempts hid
  rw [hattempts] at h
  obtain ⟨newest, hnewest, hchanged⟩ := Option.map_eq_some_iff.mp h
  split at hchanged
  · rename_i hsame
    -- the first attempt with the identity of the newest one is the newest one
    have hfirst := (newestAttempt_find hnewest).2
    rw [hsame] at hfirst
    obtain rfl : newest = attempt := Option.some.inj (hfirst.symm.trans hfind)
    exact Or.inl ⟨hnewest, hchanged.symm⟩
  · exact Or.inr (hchanged ▸ hnewest)

/-- A call after which the effect state is VERIFIED_APPLIED has left it, or has derived it from an
attempt of this incarnation and for the boundary in force. -/
theorem Outcome.effect_intended {env : Env} {s s' : RuntimeState} {call : Call} {reply : Result Reply}
    (h : Outcome env s call reply s') (hcounts : CountsOwn s env call)
    (happlied : s'.effect_state = .verifiedApplied) :
    (s.effect_state = .verifiedApplied ∧ s'.boundary = s.boundary) ∨
      ∃ newest ∈ s'.attempts, newest.state = .verifiedApplied ∧ s.Intended s'.boundary newest := by
  cases h with
  | transitionFailed _ _ counted => rcases counted with rfl | rfl <;> exact Or.inl ⟨happlied, rfl⟩
  | transitionRefused _ _ _ counted => rcases counted with rfl | rfl <;> exact Or.inl ⟨happlied, rfl⟩
  | transitionAccepted =>
    have hnone : EffectState.notRequested = .verifiedApplied := happlied
    exact absurd hnone (by decide)
  | submitted =>
    have hsubmitted : EffectState.submitted = .verifiedApplied := happlied
    exact absurd hsubmitted (by decide)
  | ackMismatched _ _ _ taken =>
    rcases taken with rfl | ⟨-, rfl⟩ <;> exact Or.inl ⟨happlied, rfl⟩
  | @acknowledged ack attempt checked matches_ committable =>
    obtain ⟨hfind, -⟩ := checkAcknowledgement_ok checked
    obtain ⟨hflag, newest, hnewest, hstate⟩ := newest_of_derived happlied
    rcases newestAttempt_setAttempt hfind (acknowledged_id.trans (findAttempt_id hfind)) hnewest with
      ⟨-, rfl⟩ | hbefore
    · exact absurd hstate (acknowledged_not_applied _ _)
    · have hmem := List.mem_of_find?_eq_some (newestAttempt_find hnewest).2
      exact Or.inr ⟨newest, hmem, hstate, hcounts attempt (mem_toOption.mpr checked) matches_
        committable hflag newest hbefore (Or.inl hstate)⟩
  | @verifyMismatched report attempt status checked mismatch committable =>
    obtain ⟨hfind, -⟩ := checkVerification_ok_iff.mp checked
    obtain ⟨hflag, newest, hnewest, hstate⟩ := newest_of_derived happlied
    have hnot := not_confirms_of_mismatch mismatch
    rcases newestAttempt_setAttempt hfind (observed_id.trans (findAttempt_id hfind)) hnewest with
      ⟨-, rfl⟩ | hbefore
    · exact absurd ((observed_applied_iff _ _).mp hstate).confirms hnot
    · have hmem := List.mem_of_find?_eq_some (newestAttempt_find hnewest).2
      have hplan : s.planAfter report attempt = s.boundary_plan := if_neg fun h => hnot h.1
      have hboundary : s.boundaryAfter report attempt = s.boundary := if_neg fun h => hnot h.1
      have htrusts := (hcounts attempt (mem_toOption.mpr checked)).2 committable
        fun hset => absurd (hset.symm.trans hflag) (by simp)
      rw [hplan, hboundary] at htrusts
      exact Or.inr ⟨newest, hmem, hstate, htrusts newest hbefore (Or.inl hstate)⟩
  | @verified report attempt checked matches_ committable =>
    obtain ⟨hfind, -⟩ := checkVerification_ok_iff.mp checked
    have hid : (attempt.observed report env.now_millis).id = report.id :=
      observed_id.trans (findAttempt_id hfind)
    obtain ⟨hflag, newest, hnewest, hstate⟩ := newest_of_derived happlied
    have hboundary := adoptVerified_boundary ((s.setAttempt report.id
      (attempt.observed report env.now_millis)).committed .effectVerification
        (encodeAttempt (attempt.observed report env.now_millis))) report attempt env.now_millis
    obtain ⟨hkeeps, hplan, -⟩ := adoptVerified_observed ((s.setAttempt report.id
      (attempt.observed report env.now_millis)).committed .effectVerification
        (encodeAttempt (attempt.observed report env.now_millis))) report attempt env.now_millis
    -- neither the table nor the store decides which plan is adopted
    change _ = s.planAfter report attempt at hplan
    change _ = s.boundaryAfter report attempt at hboundary
    change _ = (s.effect_requires_reverification && _) at hkeeps
    have hclears : s.effect_requires_reverification = true → report.Confirms attempt := by
      intro hset
      rw [hkeeps, hset] at hflag
      simpa using hflag
    have htrusts := (hcounts attempt (mem_toOption.mpr checked)).2 committable hclears
    rw [adoptVerified_attempts, hplan] at hnewest
    have hmem := List.mem_of_find?_eq_some (newestAttempt_find hnewest).2
    refine Or.inr ⟨newest, by simpa [recomputeEffectState] using hmem, hstate, ?_⟩
    change s.Intended (RuntimeState.adoptVerified _ _).boundary newest
    rw [hboundary]
    rcases newestAttempt_setAttempt hfind hid hnewest with ⟨hbefore, rfl⟩ | hbefore
    · have hsees := (observed_applied_iff _ _).mp hstate
      rw [if_pos hsees] at htrusts
      exact htrusts attempt hbefore (Or.inr (by rw [← findAttempt_id hfind]))
    · exact htrusts newest hbefore (Or.inl hstate)
  | _ => exact Or.inl ⟨happlied, rfl⟩

/-- What was noted stays noted, and a call adds what it was told. -/
theorem EffectsNoted.call {effects : Effects} {env : Env} {s : RuntimeState} {call : Call}
    (h : EffectsNoted effects s) (hcounts : CountsOwn s env call) :
    EffectsNoted (effects.called call (exec (perform env call) s).1) (exec (perform env call) s).2 := by
  have ho := perform_outcome env s call
  have haccepted : ∀ report before, call = .verifyEffect report →
      s.checkVerification report = .ok before → report.SeesApplied before → ¬ s.Foreign before →
      call.sawApplied (exec (perform env call) s).1 = some (report, before.intent) := by
    rintro report before rfl hcheck hsees hown
    have hcommittable := (hcounts before (mem_toOption.mpr hcheck)).1 hsees hown
    rw [verifyEffect_accepted hcheck hsees.matches_ hcommittable, Call.sawApplied, if_pos hsees.1]
    rfl
  generalize (exec (perform env call) s).1 = reply at *
  generalize (exec (perform env call) s).2 = s' at *
  have hsubmitted : ∀ attempt ∈ s'.attempts, ¬ s'.Foreign attempt →
      attempt.intent ∈ (effects.called call reply).submitted := by
    intro attempt hmem hown
    rw [ho.foreign] at hown
    rcases ho.attempt_cases hmem with hold | ⟨rfl, -⟩ | ⟨before, hbefore, hintent, -⟩
    · exact List.mem_append_left _ (h.submitted attempt hold hown)
    · exact List.mem_append_right _ (List.mem_singleton_self _)
    · have hforeign : ¬ s.Foreign before := by
        have hepoch : before.epoch = attempt.epoch := congrArg Intent.epoch hintent
        have hboot : before.boot = attempt.boot := congrArg Intent.boot hintent
        rwa [Foreign, hepoch, hboot]
      rw [← hintent]
      exact List.mem_append_left _ (h.submitted before hbefore hforeign)
  have happlied : ∀ attempt ∈ s'.attempts, ¬ s'.Foreign attempt → attempt.state = .verifiedApplied →
      ∃ seen ∈ (effects.called call reply).applied, seen.2 = attempt.intent ∧
        seen.1.observed_boundary_digest = attempt.boundary_digest := by
    intro attempt hmem hown hstate
    rw [ho.foreign] at hown
    rcases ho.attempt_cases hmem with hold | ⟨-, hnew⟩ | ⟨before, hbefore, hintent, hwrites⟩
    · obtain ⟨seen, hseen, hsame⟩ := h.applied attempt hold hown hstate
      exact ⟨seen, List.mem_append_left _ hseen, hsame⟩
    · exact absurd (hstate.symm.trans hnew) (by decide)
    · obtain ⟨report, hcall, hcheck, rfl⟩ := hwrites hstate
      have hsees := (observed_applied_iff _ _).mp hstate
      have hsaw := haccepted report before hcall hcheck hsees hown
      refine ⟨(report, before.intent), List.mem_append_right _ ?_, rfl, hsees.2⟩
      rw [hsaw]
      exact List.mem_singleton_self _
  refine ⟨hsubmitted, happlied, fun current hcurrent heffect => ?_⟩
  rcases ho.effect_intended hcounts heffect with ⟨hbefore, hboundary⟩ |
    ⟨newest, hmem, hstate, hown, hdigest⟩
  · obtain ⟨seen, hseen, hhanded, hdigest⟩ := h.effect current (hboundary ▸ hcurrent) hbefore
    exact ⟨seen, List.mem_append_left _ hseen, List.mem_append_left _ hhanded, hdigest⟩
  · rw [← ho.foreign] at hown
    obtain ⟨seen, hseen, hintent, hsaw⟩ := happlied newest hmem hown hstate
    exact ⟨seen, hseen, hintent ▸ hsubmitted newest hmem hown, hsaw.trans (hdigest current hcurrent)⟩

/-! ## Runs -/

/-- An incarnation that recovers no attempt of its own starts with nothing noted. -/
theorem effectsNoted_started {s₀ s : RuntimeState} {boot : BootIdentity} {effects : Effects}
    (hstarted : Started (s₀.incarnate boot) s)
    (hforeign : ∀ attempt ∈ s₀.attempts, (s₀.incarnate boot).Foreign attempt) :
    EffectsNoted effects s := by
  have hsame := hstarted.same
  have hall : ∀ attempt ∈ s.attempts, s.Foreign attempt := by
    intro attempt hmem
    rw [hsame.attempts] at hmem
    obtain ⟨before, hbefore, rfl⟩ := List.mem_map.mp (mem_of_mem_dropExcess hmem)
    have hfenced : (s₀.incarnate boot).Foreign (fenceAttempt before) := by
      unfold fenceAttempt
      split <;> exact hforeign before hbefore
    rwa [Foreign, hsame.epoch, hsame.boot]
  refine ⟨fun attempt hmem hown => absurd (hall attempt hmem) hown,
    fun attempt hmem hown => absurd (hall attempt hmem) hown, fun current hcurrent heffect => ?_⟩
  -- a verified effect is not current any more after a restart
  rw [hsame.effect_state] at heffect
  unfold incarnate at heffect
  cases hderived : s₀.derivedEffectState <;> simp [hderived, mustReverify] at heffect

/-- The steps that count what this incarnation intended and was told: a store is opened under an epoch
and a boot that no recovered attempt has, and calls count their own. -/
def StepsCountOwn (sys : System) : Event → Prop
  | .open_ config _ boot => sys.runtime.isNone →
    ∀ s ∈ (recover config sys.disk).1.toOption, ∀ attempt ∈ s.attempts,
      (s.incarnate boot).Foreign attempt
  | .call env call => ∀ s ∈ sys.runtime, CountsOwn s env call
  | .crash _ => True

instance StepsCountOwn.instDecidable (sys : System) : (event : Event) →
    Decidable (StepsCountOwn sys event)
  | .open_ config _ _ => inferInstanceAs (Decidable (sys.runtime.isNone →
      ∀ s ∈ (recover config sys.disk).1.toOption, _))
  | .call env call => inferInstanceAs (Decidable (∀ s ∈ sys.runtime, CountsOwn s env call))
  | .crash _ => inferInstanceAs (Decidable True)

/-- The effects of the live incarnation stay noted. -/
theorem EffectsNoted.next {sys : System} {effects : Effects} {event : Event}
    (h : ∀ s ∈ sys.runtime, EffectsNoted effects s) (hcounts : StepsCountOwn sys event) :
    ∀ s ∈ (sys.next event).runtime, EffectsNoted (noteEffects sys event effects) s := by
  intro s' hs'
  cases event with
  | open_ config env boot =>
    cases hrun : sys.runtime with
    | some s =>
      rw [next_open_live hrun] at hs'
      exact h s' hs'
    | none =>
      rw [next_open hrun] at hs'
      obtain ⟨s₀, _, hrecover, hstarted, -⟩ := openRuntime_ok (Prod.ext (mem_toOption.mp hs') rfl)
      exact effectsNoted_started hstarted (hcounts (by simp [hrun]) s₀ (by rw [hrecover]; rfl))
  | call env call =>
    cases hrun : sys.runtime with
    | none =>
      rw [next_call_closed hrun, hrun] at hs'
      exact absurd hs' (by simp)
    | some s =>
      rw [next_call hrun] at hs'
      obtain rfl := Option.some.inj hs'
      rw [noteEffects, reply_call hrun]
      exact (h s hrun).call (hcounts s hrun)
  | crash torn_bytes => exact absurd hs' (by simp [next_crash])

/-- In a run whose steps count what the live incarnation intended and was told, a boundary that is
VERIFIED_APPLIED was observed applied. -/
theorem verified_effect_observed {events : List Event}
    (h : Runs.Along System.next StepsCountOwn {} events) :
    Live (EffectObserved (Runs.exec (Runs.observe System.next noteEffects) ({}, {}) events).2)
      (Runs.exec (Runs.observe System.next noteEffects) ({}, {}) events).1 := by
  have hnoted := Runs.invariant (I := fun p : System × Effects =>
      ∀ s ∈ p.1.runtime, EffectsNoted p.2 s)
    (fun _ _ hnoted hcounts => EffectsNoted.next hnoted hcounts)
    (fun s hs => absurd hs (by simp)) (h.observe noteEffects {})
  exact fun s hs => (hnoted s hs).observed

/-- The boundary is applied again after a restart, and observed applied by the new incarnation. -/
theorem verified_effect_observed_reasserted :
    Live (EffectObserved (Runs.exec (Runs.observe System.next noteEffects) ({}, {})
        (Sample.reasserted |> Sample.thenVerify ⟨1, 2⟩ 2 1 .applied)).2)
      (Runs.exec (Runs.observe System.next noteEffects) ({}, {})
        (Sample.reasserted |> Sample.thenVerify ⟨1, 2⟩ 2 1 .applied)).1 :=
  verified_effect_observed (by decide +kernel)

/-- A report on an attempt of an earlier incarnation verifies the effect for the one that is live. -/
theorem unsubmitted_effect_verified :
    ¬ ∀ events, Live
      (EffectObserved (Runs.exec (Runs.observe System.next noteEffects) ({}, {}) events).2)
      (Runs.exec (Runs.observe System.next noteEffects) ({}, {}) events).1 := by
  intro h
  -- the acknowledgement names a digest of no boundary, which leaves the attempt ambiguous
  have hlive := h ((Sample.submitted ++
    [Sample.does (.acknowledge ⟨⟨1, 1⟩, 1, Sample.boot 1, 1, Sample.boot 9, 1, Digest.zero, true⟩),
      .crash 0, Sample.opens 2]) |> Sample.thenVerify ⟨1, 1⟩ 2 2 .applied)
  revert hlive
  decide +kernel

end Fcfn
