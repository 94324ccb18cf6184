import Fcfn.Runtime.Incarnation

/-!
# The table of attempts

Every open fences what was in flight, so the attempts of other incarnations are terminal in every
state a run reaches (`foreign_terminal`). An acknowledgement is taken in only for an attempt that is
not terminal, but an effect report also for one that failed or is ambiguous. -/

namespace Fcfn

open Words Stateful RuntimeState Tables

namespace RuntimeState

/-- An attempt of another incarnation. -/
def Foreign (s : RuntimeState) (attempt : ApplyAttempt) : Prop :=
  attempt.epoch ≠ s.epoch ∨ attempt.boot ≠ s.boot

instance Foreign.instDecidable (s : RuntimeState) (attempt : ApplyAttempt) :
    Decidable (s.Foreign attempt) :=
  inferInstanceAs (Decidable (_ ∨ _))

@[simp] theorem foreign_mismatched (s : RuntimeState) (attempt : ApplyAttempt) :
    s.Foreign attempt.mismatched ↔ s.Foreign attempt := Iff.rfl

@[simp] theorem foreign_acknowledged (s : RuntimeState) (attempt : ApplyAttempt)
    (ack : ApplyAcknowledgement) (now : UInt64) :
    s.Foreign (attempt.acknowledged ack now) ↔ s.Foreign attempt := Iff.rfl

@[simp] theorem foreign_observed (s : RuntimeState) (attempt : ApplyAttempt)
    (report : EffectVerification) (now : UInt64) :
    s.Foreign (attempt.observed report now) ↔ s.Foreign attempt := Iff.rfl

/-- The attempts of other incarnations. -/
def foreignAttempts (s : RuntimeState) : List ApplyAttempt :=
  s.attempts.filter fun attempt => s.Foreign attempt

/-- The attempts of other incarnations can no longer be acknowledged. -/
def ForeignTerminal (s : RuntimeState) : Prop :=
  ∀ attempt ∈ s.attempts, s.Foreign attempt → attempt.terminal = true

end RuntimeState

/-! ## What the handlers look at -/

/-- An acknowledgement is taken in for a retained attempt that is not terminal, when it comes from
this incarnation and its sequence advances. -/
theorem checkAcknowledgement_ok_iff {s : RuntimeState} {ack : ApplyAcknowledgement}
    {attempt : ApplyAttempt} :
    s.checkAcknowledgement ack = .ok attempt ↔
      s.findAttempt ack.id = some attempt ∧ ack.expected_epoch = s.epoch ∧
        ack.expected_boot = s.boot ∧ attempt.terminal = false ∧
        attempt.applier_sequence < ack.applier_sequence := by
  unfold checkAcknowledgement
  cases hfind : s.findAttempt ack.id with
  | none => simp [fail]
  | some found =>
    simp only [checkAttemptAuthority, bind_eq_ok, pure_eq_ok, require_eq_ok, exists_and_left,
      exists_const, beq_iff_eq, decide_eq_true_eq, Option.some.injEq, Bool.not_eq_true']
    constructor
    · rintro ⟨⟨hepoch, hboot⟩, hterminal, hsequence, rfl⟩
      exact ⟨rfl, hepoch, hboot, hterminal, hsequence⟩
    · rintro ⟨rfl, hepoch, hboot, hterminal, hsequence⟩
      exact ⟨⟨hepoch, hboot⟩, hterminal, hsequence, rfl⟩

/-- An acknowledgement that is taken in names a retained attempt that is not terminal. -/
theorem checkAcknowledgement_ok {s : RuntimeState} {ack : ApplyAcknowledgement}
    {attempt : ApplyAttempt} (h : s.checkAcknowledgement ack = .ok attempt) :
    s.findAttempt ack.id = some attempt ∧ attempt.terminal = false := by
  obtain ⟨hfind, -, -, hterminal, -⟩ := checkAcknowledgement_ok_iff.mp h
  exact ⟨hfind, hterminal⟩

/-- An effect report is taken in for a retained attempt that is not settled, when it comes from
this incarnation and its sequence advances. -/
theorem checkVerification_ok_iff {s : RuntimeState} {report : EffectVerification}
    {attempt : ApplyAttempt} :
    s.checkVerification report = .ok attempt ↔
      s.findAttempt report.id = some attempt ∧ report.expected_epoch = s.epoch ∧
        report.expected_boot = s.boot ∧ checkVerifiable attempt.state = .ok () ∧
        attempt.applier_sequence < report.applier_sequence := by
  unfold checkVerification
  cases hfind : s.findAttempt report.id with
  | none => simp [fail]
  | some found =>
    simp only [checkAttemptAuthority, bind_eq_ok, pure_eq_ok, require_eq_ok, exists_and_left,
      exists_const, beq_iff_eq, decide_eq_true_eq, Option.some.injEq]
    constructor
    · rintro ⟨⟨hepoch, hboot⟩, _, hstate, hsequence, rfl⟩
      exact ⟨rfl, hepoch, hboot, hstate, hsequence⟩
    · rintro ⟨rfl, hepoch, hboot, hstate, hsequence⟩
      exact ⟨⟨hepoch, hboot⟩, (), hstate, hsequence, rfl⟩

/-- An attempt is terminal once it is past its acknowledgement. -/
theorem terminal_iff {attempt : ApplyAttempt} :
    attempt.terminal = true ↔ attempt.state ≠ .notRequested ∧ attempt.state ≠ .submitted ∧
      attempt.state ≠ .acknowledged := by
  unfold ApplyAttempt.terminal
  cases attempt.state <;> simp

/-- A terminal attempt that can still be verified has failed or is ambiguous. -/
theorem checkVerifiable_of_terminal {attempt : ApplyAttempt} (h : attempt.terminal = true) :
    checkVerifiable attempt.state = .ok () ↔
      attempt.state = .failed ∨ attempt.state = .ambiguous := by
  rw [terminal_iff] at h
  cases hstate : attempt.state <;> simp [hstate, checkVerifiable, fail] at h ⊢

/-- The state that an effect report gives an attempt. -/
theorem observed_state (attempt : ApplyAttempt) (report : EffectVerification) (now : UInt64) :
    (attempt.observed report now).state = (observedState report.observation
      (report.observed_boundary_digest = attempt.boundary_digest)).1 := rfl

/-- What an effect report makes of an attempt is terminal. -/
theorem observed_terminal (attempt : ApplyAttempt) (report : EffectVerification) (now : UInt64) :
    (attempt.observed report now).terminal = true := by
  have hstate : ∀ observation digest_matches,
      (observedState observation digest_matches).1 ≠ .notRequested ∧
        (observedState observation digest_matches).1 ≠ .submitted ∧
        (observedState observation digest_matches).1 ≠ .acknowledged := by
    intro observation digest_matches
    cases observation <;> cases digest_matches <;> simp [observedState]
  exact terminal_iff.mpr (hstate _ _)

/-! ## What a call does to the table -/

/-- Adopting a plan changes the decision in force and the flag only. -/
theorem adoptVerified_eq (s : RuntimeState) (attempt : ApplyAttempt) :
    s.adoptVerified attempt = { s with
      effect_requires_reverification := (s.adoptVerified attempt).effect_requires_reverification
      boundary := (s.adoptVerified attempt).boundary
      boundary_plan := (s.adoptVerified attempt).boundary_plan
      boundary_plan_digest := (s.adoptVerified attempt).boundary_plan_digest
      boundary_counter := (s.adoptVerified attempt).boundary_counter } := by
  unfold adoptVerified
  split
  · simp only
    split
    · split <;> rfl
    · rfl
  · rfl

section Adopt

variable (s : RuntimeState) (attempt : ApplyAttempt)

@[simp] theorem adoptVerified_attempts : (s.adoptVerified attempt).attempts = s.attempts := by
  rw [adoptVerified_eq]

@[simp] theorem adoptVerified_epoch : (s.adoptVerified attempt).epoch = s.epoch := by
  rw [adoptVerified_eq]

@[simp] theorem adoptVerified_boot : (s.adoptVerified attempt).boot = s.boot := by
  rw [adoptVerified_eq]

@[simp] theorem adoptVerified_store : (s.adoptVerified attempt).store = s.store := by
  rw [adoptVerified_eq]

@[simp] theorem adoptVerified_config : (s.adoptVerified attempt).config = s.config := by
  rw [adoptVerified_eq]

end Adopt

/-- A report that the enforcement plane observed the effect of the boundary that was intended. -/
def EffectVerification.Confirms (report : EffectVerification) (attempt : ApplyAttempt) : Prop :=
  (report.observation = .applied ∨ report.observation = .released) ∧
    report.observed_boundary_digest = attempt.boundary_digest

instance EffectVerification.Confirms.instDecidable (report : EffectVerification)
    (attempt : ApplyAttempt) : Decidable (report.Confirms attempt) :=
  inferInstanceAs (Decidable (_ ∧ _))

/-- The plan of an attempt is retained and has the members of the boundary in force. -/
def RuntimeState.Adoptable (s : RuntimeState) (attempt : ApplyAttempt) : Prop :=
  ∃ plan ∈ s.findPlan attempt.id.plan, s.boundary.any fun b => plan.boundary.sameMembers b

instance RuntimeState.Adoptable.instDecidable (s : RuntimeState) (attempt : ApplyAttempt) :
    Decidable (s.Adoptable attempt) :=
  inferInstanceAs (Decidable (∃ plan ∈ s.findPlan attempt.id.plan, _))

/-- An attempt is verified by a report that confirms its boundary. -/
theorem isVerified_observed (attempt : ApplyAttempt) (report : EffectVerification) (now : UInt64) :
    isVerifiedEffect (attempt.observed report now).state = decide (report.Confirms attempt) := by
  rw [observed_state]
  obtain ⟨_, _, _, _, _, _, observed, observation⟩ := report
  unfold EffectVerification.Confirms observedState
  by_cases h : observed = attempt.boundary_digest <;>
    cases observation <;> simp [h, isVerifiedEffect]

/-- A report of another boundary confirms nothing. -/
theorem not_confirms_of_mismatch {attempt : ApplyAttempt} {report : EffectVerification}
    (h : (mismatchText report.observation
      (report.observed_boundary_digest = attempt.boundary_digest)).isSome) :
    ¬ report.Confirms attempt := by
  rintro ⟨hobservation, hdigest⟩
  rcases hobservation with hobs | hobs <;> simp [mismatchText, hobs, hdigest] at h

/-- A retained plan is found under its own generation. -/
theorem findPlan_generation {s : RuntimeState} {generation : PlanGeneration} {plan : ContainmentPlan}
    (h : s.findPlan generation = some plan) : plan.generation = generation ∧ plan ∈ s.plans :=
  ⟨by simpa using List.find?_some h, List.mem_of_find?_eq_some h⟩

/-- Adopting an attempt that was not verified changes nothing. -/
theorem adoptVerified_of_not {s : RuntimeState} {attempt : ApplyAttempt}
    (h : isVerifiedEffect attempt.state = false) : s.adoptVerified attempt = s := by
  rw [adoptVerified, h]
  rfl

/-- What adopting a verified attempt does to the decision in force. -/
theorem adoptVerified_of_verified {s : RuntimeState} {attempt : ApplyAttempt}
    (h : isVerifiedEffect attempt.state = true) :
    (¬ s.Adoptable attempt ∧
        s.adoptVerified attempt = { s with effect_requires_reverification := false }) ∨
      ∃ plan boundary, s.findPlan attempt.id.plan = some plan ∧ s.boundary = some boundary ∧
        plan.boundary.sameMembers boundary = true ∧
        s.adoptVerified attempt = { s with
          effect_requires_reverification := false
          boundary := some plan.boundary
          boundary_plan := plan.generation
          boundary_plan_digest := plan.digest
          boundary_counter := plan.boundary.generation } := by
  unfold adoptVerified Adoptable
  rw [if_pos h]
  simp only [findPlan]
  cases hplan : s.plans.find? (fun plan => plan.generation == attempt.id.plan) with
  | none => exact Or.inl ⟨by simp, rfl⟩
  | some plan =>
    cases hboundary : s.boundary with
    | none => exact Or.inl ⟨by simp, rfl⟩
    | some boundary =>
      simp only
      by_cases hsame : plan.boundary.sameMembers boundary = true
      · rw [if_pos hsame]
        exact Or.inr ⟨plan, boundary, rfl, rfl, hsame, rfl⟩
      · rw [if_neg hsame]
        exact Or.inl ⟨by simpa using hsame, rfl⟩

/-- The plan in force once a report on an attempt has been taken in. -/
def RuntimeState.planAfter (s : RuntimeState) (report : EffectVerification)
    (attempt : ApplyAttempt) : PlanGeneration :=
  if report.Confirms attempt ∧ s.Adoptable attempt then attempt.id.plan else s.boundary_plan

/-- What a report makes of the flag, the plan in force and the presence of a boundary. -/
theorem adoptVerified_observed (s : RuntimeState) (report : EffectVerification)
    (attempt : ApplyAttempt) (now : UInt64) :
    (s.adoptVerified (attempt.observed report now)).effect_requires_reverification =
        (s.effect_requires_reverification && !decide (report.Confirms attempt)) ∧
      (s.adoptVerified (attempt.observed report now)).boundary_plan = s.planAfter report attempt ∧
      (s.adoptVerified (attempt.observed report now)).boundary.isSome = s.boundary.isSome := by
  have hverified := isVerified_observed attempt report now
  by_cases hconfirms : report.Confirms attempt
  · rw [decide_eq_true hconfirms] at hverified
    rcases adoptVerified_of_verified (s := s) hverified with
      ⟨hnot, heq⟩ | ⟨plan, boundary, hplan, hboundary, hsame, heq⟩
    · rw [heq, planAfter, if_neg fun h => hnot h.2]
      simp [hconfirms]
    · have hadopt : s.Adoptable attempt := ⟨plan, hplan, by simp [hboundary, hsame]⟩
      rw [heq, planAfter, if_pos ⟨hconfirms, hadopt⟩]
      exact ⟨by simp [hconfirms], (findPlan_generation hplan).1, by simp [hboundary]⟩
  · rw [decide_eq_false hconfirms] at hverified
    rw [adoptVerified_of_not hverified, planAfter, if_neg fun h => hconfirms h.1]
    simp [hconfirms]

/-- An incarnation keeps its epoch, its boot and its configuration. -/
theorem Outcome.incarnation {env : Env} {s s' : RuntimeState} {call : Call} {reply : Result Reply}
    (h : Outcome env s call reply s') :
    s'.epoch = s.epoch ∧ s'.boot = s.boot ∧ s'.config = s.config := by
  cases h with
  | verified => simp [recomputeEffectState, committed, setAttempt]
  | transitionFailed _ _ counted => rcases counted with rfl | rfl <;> exact ⟨rfl, rfl, rfl⟩
  | transitionRefused _ _ _ counted => rcases counted with rfl | rfl <;> exact ⟨rfl, rfl, rfl⟩
  | ackMismatched _ _ _ taken => rcases taken with rfl | ⟨-, rfl⟩ <;> exact ⟨rfl, rfl, rfl⟩
  | _ => exact ⟨rfl, rfl, rfl⟩

/-- What a call can do to the table of attempts. -/
inductive AttemptsAfter (env : Env) (s : RuntimeState) : Call → List ApplyAttempt → Prop
  | same (call : Call) : AttemptsAfter env s call s.attempts
  | evicted (call : Call) (bound : ℕ) : AttemptsAfter env s call (dropExcess bound s.attempts)
  | submitted {id : AuthorizationId} {generation : PlanGeneration} {plan_digest : Digest}
      {plan : ContainmentPlan} (checked : s.checkSubmit generation plan_digest = .ok plan) :
    AttemptsAfter env s (.submitApply id generation plan_digest)
      (dropExcess s.config.max_retained_attempts
        (s.attempts ++ [s.countAttempt.newAttempt plan env.later_millis]))
  | acknowledged {ack : ApplyAcknowledgement} {attempt : ApplyAttempt} (attempt' : ApplyAttempt)
      (checked : s.checkAcknowledgement ack = .ok attempt)
      (taken : attempt' = attempt.mismatched ∨ attempt' = attempt.acknowledged ack env.now_millis) :
    AttemptsAfter env s (.acknowledge ack) (s.setAttempt ack.id attempt').attempts
  | verified {report : EffectVerification} {attempt : ApplyAttempt}
      (checked : s.checkVerification report = .ok attempt) :
    AttemptsAfter env s (.verifyEffect report)
      (s.setAttempt report.id (attempt.observed report env.now_millis)).attempts

/-- A call drops old attempts, adds the one it submits or updates the one it names. -/
theorem Outcome.attempts {env : Env} {s s' : RuntimeState} {call : Call} {reply : Result Reply}
    (h : Outcome env s call reply s') : AttemptsAfter env s call s'.attempts := by
  cases h with
  | detected => exact .evicted _ s.config.max_retained_attempts
  | planned => exact .evicted _ s.config.max_retained_attempts
  | transitionFailed _ _ counted => rcases counted with rfl | rfl <;> exact .same _
  | transitionRefused _ _ _ counted =>
    rcases counted with rfl | rfl <;> exact .evicted _ s.config.max_retained_attempts
  | transitionAccepted => exact .evicted _ s.config.max_retained_attempts
  | submitted _ checked => exact .submitted checked
  | ackMismatched _ _ checked taken =>
    rcases taken with rfl | ⟨-, rfl⟩ <;> exact .acknowledged _ checked (Or.inl rfl)
  | ackFailed _ checked => exact .acknowledged _ checked (Or.inr rfl)
  | acknowledged checked => exact .acknowledged _ checked (Or.inr rfl)
  | verifyFailed _ checked => exact .verified checked
  | verifyMismatched _ checked => exact .verified checked
  | verified checked =>
    have heq : AttemptsAfter env s _ _ := .verified checked
    simpa [recomputeEffectState, committed] using heq
  | _ => exact .same _

/-! ## Pre-restart attempts -/

/-- Attempts of other incarnations stay so, and stay those of other incarnations. -/
theorem Outcome.foreign {env : Env} {s s' : RuntimeState} {call : Call} {reply : Result Reply}
    (h : Outcome env s call reply s') (attempt : ApplyAttempt) :
    s'.Foreign attempt ↔ s.Foreign attempt := by
  obtain ⟨hepoch, hboot, -⟩ := h.incarnation
  rw [Foreign, Foreign, hepoch, hboot]

/-- An attempt that is acknowledged is not one of another incarnation. -/
theorem RuntimeState.ForeignTerminal.not_foreign {s : RuntimeState} (h : s.ForeignTerminal)
    {ack : ApplyAcknowledgement} {attempt : ApplyAttempt}
    (hcheck : s.checkAcknowledgement ack = .ok attempt) : ¬ s.Foreign attempt := by
  obtain ⟨hfind, hterminal⟩ := checkAcknowledgement_ok hcheck
  intro hforeign
  rw [h attempt (List.mem_of_find?_eq_some hfind) hforeign] at hterminal
  exact absurd hterminal (by simp)

/-- After an open every attempt is terminal. -/
theorem terminal_of_started {s₀ s : RuntimeState} {boot : BootIdentity}
    (h : Started (s₀.incarnate boot) s) : ∀ attempt ∈ s.attempts, attempt.terminal = true := by
  intro _ hmem
  rw [h.same.attempts] at hmem
  obtain ⟨before, -, rfl⟩ := List.mem_map.mp (mem_of_mem_dropExcess hmem)
  unfold fenceAttempt
  split
  · assumption
  · rfl

/-- Every call keeps the attempts of other incarnations terminal. -/
theorem Outcome.foreignTerminal {env : Env} {s s' : RuntimeState} {call : Call}
    {reply : Result Reply} (h : s.ForeignTerminal) (ho : Outcome env s call reply s') :
    s'.ForeignTerminal := by
  intro a ha hforeign
  rw [ho.foreign] at hforeign
  have hafter := ho.attempts
  generalize s'.attempts = attempts at ha hafter
  cases hafter with
  | same => exact h a ha hforeign
  | evicted _ bound => exact h a (mem_of_mem_dropExcess ha) hforeign
  | submitted =>
    rcases List.mem_append.mp (mem_of_mem_dropExcess ha) with hmem | hmem
    · exact h a hmem hforeign
    · obtain rfl := List.mem_singleton.mp hmem
      exact absurd hforeign (by simp [Foreign, newAttempt, countAttempt])
  | acknowledged attempt' checked taken =>
    rcases mem_updateFirst ha with hmem | ⟨-, -, rfl⟩
    · exact h a hmem hforeign
    · have hown := h.not_foreign checked
      refine absurd hforeign ?_
      rcases taken with rfl | rfl <;> exact hown
  | verified =>
    rcases mem_updateFirst ha with hmem | ⟨-, -, rfl⟩
    · exact h a hmem hforeign
    · exact observed_terminal _ _ _

/-- In every state that a run reaches the attempts of other incarnations are terminal. -/
theorem live_foreignTerminal {sys : System} (h : Live ForeignTerminal sys) (event : Event) :
    Live ForeignTerminal (sys.next event) :=
  Live.step (P := fun _ _ _ => True)
    (fun _ _ _ hstarted attempt hmem _ => terminal_of_started hstarted attempt hmem)
    (fun _ _ _ _ _ h _ ho => ho.foreignTerminal h) h
    (by cases event <;> simp [OnCall])

/-- What a report can change about an attempt. -/
def ApplyAttempt.reported (attempt : ApplyAttempt) :
    ApplyAttemptId × EffectState × ApplierEpoch × BootIdentity × Sequence × Digest :=
  (attempt.id, attempt.state, attempt.applier_epoch, attempt.applier_boot,
    attempt.applier_sequence, attempt.observed_boundary_digest)

/-- The attempt that a call reports on. -/
def Call.reportsOn : Call → Option ApplyAttemptId
  | .acknowledge ack => some ack.id
  | .verifyEffect report => some report.id
  | _ => none

/-- A call leaves the attempts of other incarnations as they are, but for those evicted, and accepts
no report on one. -/
def ForeignKept (s : RuntimeState) (env : Env) (call : Call) : Prop :=
  ((exec (perform env call) s).2.foreignAttempts.map ApplyAttempt.reported).Sublist
      (s.foreignAttempts.map ApplyAttempt.reported) ∧
    ∀ attempt ∈ call.reportsOn.bind s.findAttempt, s.Foreign attempt →
      (exec (perform env call) s).1.isOk = false

instance ForeignKept.instDecidable (s : RuntimeState) (env : Env) (call : Call) :
    Decidable (ForeignKept s env call) :=
  (instDecidableAnd : Decidable (_ ∧ _))

/-- An effect report that the handler takes in for a failed or ambiguous attempt of another
incarnation. The sender names the incarnation that is open, not the attempt's. -/
def Revives (s : RuntimeState) (_ : Env) : Call → Prop
  | .verifyEffect report =>
    ∃ attempt ∈ s.findAttempt report.id, s.Foreign attempt ∧
      (attempt.state = .failed ∨ attempt.state = .ambiguous) ∧
      report.expected_epoch = s.epoch ∧ report.expected_boot = s.boot ∧
      attempt.applier_sequence < report.applier_sequence
  | _ => False

instance Revives.instDecidable (s : RuntimeState) (env : Env) (call : Call) :
    Decidable (Revives s env call) :=
  match call with
  | .verifyEffect report => inferInstanceAs (Decidable (∃ attempt ∈ s.findAttempt report.id, _))
  | .applyTopology _ | .applyPolicy _ | .recordDetection _ | .authorize | .plan _ | .transition _
  | .submitApply _ _ _ | .acknowledge _ | .checkpoint => inferInstanceAs (Decidable False)

/-- A report that passes the checks is taken into the table, whether or not it is recorded. -/
theorem verifyEffect_attempts {env : Env} {s : RuntimeState} {report : EffectVerification}
    {attempt : ApplyAttempt} (h : s.checkVerification report = .ok attempt) :
    (exec (perform env (.verifyEffect report)) s).2.attempts =
      (s.setAttempt report.id (attempt.observed report env.now_millis)).attempts := by
  simp only [perform, exec_map, verifyEffect, exec_bind, exec_get, exec_lift, h, exec_modify]
  rcases exec_commit env .effectVerification
    (encodeAttempt (attempt.observed report env.now_millis))
      (s.setAttempt report.id (attempt.observed report env.now_millis)) with
    ⟨hc, -⟩ | ⟨⟨status, hc⟩, -⟩
  · simp only [hc]
    split
    · simp [exec_bind, recomputeEffectState, committed]
    · simp [recomputeEffectState, committed]
  · simp only [hc]

/-- A report revives exactly when it passes the checks for an attempt of another incarnation. -/
theorem revives_iff {s : RuntimeState} (h : s.ForeignTerminal) (env : Env)
    (report : EffectVerification) :
    Revives s env (.verifyEffect report) ↔
      ∃ attempt, s.checkVerification report = .ok attempt ∧ s.Foreign attempt := by
  constructor
  · rintro ⟨attempt, hfind, hforeign, hstate, hepoch, hboot, hsequence⟩
    have hterminal := h attempt (List.mem_of_find?_eq_some hfind) hforeign
    exact ⟨attempt, checkVerification_ok_iff.mpr ⟨hfind, hepoch, hboot,
      (checkVerifiable_of_terminal hterminal).mpr hstate, hsequence⟩, hforeign⟩
  · rintro ⟨attempt, hcheck, hforeign⟩
    obtain ⟨hfind, hepoch, hboot, hstate, hsequence⟩ := checkVerification_ok_iff.mp hcheck
    have hterminal := h attempt (List.mem_of_find?_eq_some hfind) hforeign
    exact ⟨attempt, hfind, hforeign, (checkVerifiable_of_terminal hterminal).mp hstate, hepoch,
      hboot, hsequence⟩

/-- Without a report that revives one, the attempts of other incarnations are kept whole. -/
theorem Outcome.foreignAttempts {env : Env} {s s' : RuntimeState} {call : Call}
    {reply : Result Reply} (h : s.ForeignTerminal) (ho : Outcome env s call reply s')
    (hnot : ¬ Revives s env call) : s'.foreignAttempts.Sublist s.foreignAttempts := by
  have hfilter : s'.foreignAttempts = s'.attempts.filter fun a => s.Foreign a := by
    simp only [RuntimeState.foreignAttempts, ho.foreign]
  have hafter := ho.attempts
  rw [hfilter, RuntimeState.foreignAttempts]
  generalize s'.attempts = attempts at hafter
  cases hafter with
  | same => exact List.Sublist.refl _
  | evicted _ bound => exact (dropExcess_sublist bound _).filter _
  | submitted =>
    refine ((dropExcess_sublist _ _).filter _).trans ?_
    rw [List.filter_append, List.filter_singleton]
    simp [Foreign, newAttempt, countAttempt]
  | acknowledged attempt' checked taken =>
    -- an acknowledged attempt is one of this incarnation, before and after
    have hown := h.not_foreign checked
    rw [setAttempt, filter_updateFirst]
    intro a hfind
    obtain rfl : a = _ := Option.some.inj (hfind.symm.trans (checkAcknowledgement_ok checked).1)
    rcases taken with rfl | rfl <;> exact ⟨by simpa using hown, by simpa using hown⟩
  | verified checked =>
    have hown : ¬ s.Foreign _ := fun hforeign =>
      hnot ((revives_iff h env _).mpr ⟨_, checked, hforeign⟩)
    rw [setAttempt, filter_updateFirst]
    intro a hfind
    obtain rfl : a = _ :=
      Option.some.inj (hfind.symm.trans (checkVerification_ok_iff.mp checked).1)
    exact ⟨by simpa using hown, by simpa using hown⟩

/-- Without a report that revives one, no report on an attempt of another incarnation is accepted. -/
theorem Outcome.refuses_foreign {env : Env} {s s' : RuntimeState} {call : Call}
    {reply : Result Reply} (h : s.ForeignTerminal) (ho : Outcome env s call reply s')
    (hnot : ¬ Revives s env call) {attempt : ApplyAttempt}
    (hnames : call.reportsOn.bind s.findAttempt = some attempt) (hforeign : s.Foreign attempt) :
    reply.isOk = false := by
  cases ho with
  | acknowledged checked =>
    obtain rfl : _ = attempt :=
      Option.some.inj ((checkAcknowledgement_ok checked).1.symm.trans hnames)
    exact absurd hforeign (h.not_foreign checked)
  | verified checked =>
    obtain rfl : _ = attempt :=
      Option.some.inj ((checkVerification_ok_iff.mp checked).1.symm.trans hnames)
    exact absurd ((revives_iff h env _).mpr ⟨_, checked, hforeign⟩) hnot
  | refused => rfl
  | fenced => rfl
  | ackMismatched => rfl
  | ackFailed => rfl
  | verifyFailed => rfl
  | verifyMismatched => rfl
  | _ => exact absurd hnames (by simp [Call.reportsOn])

/-- Where pre-restart attempts are terminal, a call keeps them unless it is a report that revives
one. -/
theorem foreignKept_iff {s : RuntimeState} (h : s.ForeignTerminal) (env : Env) (call : Call) :
    ForeignKept s env call ↔ ¬ Revives s env call := by
  have ho := perform_outcome env s call
  constructor
  · rintro ⟨hkept, -⟩ hrevives
    cases call with
    | verifyEffect report =>
      obtain ⟨attempt, hcheck, hforeign⟩ := (revives_iff h env report).mp hrevives
      obtain ⟨hfind, -, -, -, hsequence⟩ := checkVerification_ok_iff.mp hcheck
      -- the applier sequence advances, so the entry of the attempt differs
      have hreported : (attempt.observed report env.now_millis).reported ≠ attempt.reported := by
        intro heq
        have hsame : report.applier_sequence = attempt.applier_sequence :=
          congrArg (fun r => r.2.2.2.2.1) heq
        rw [hsame] at hsequence
        exact absurd hsequence (UInt64.lt_irrefl _)
      have hfilter : (exec (perform env (.verifyEffect report)) s).2.foreignAttempts =
          (s.setAttempt report.id (attempt.observed report env.now_millis)).foreignAttempts := by
        simp only [RuntimeState.foreignAttempts, ho.foreign, verifyEffect_attempts hcheck]
        rfl
      obtain ⟨hlength, hne⟩ :
          (s.setAttempt report.id (attempt.observed report env.now_millis)).foreignAttempts.length =
            s.foreignAttempts.length ∧
          (s.setAttempt report.id (attempt.observed report env.now_millis)).foreignAttempts.map
            ApplyAttempt.reported ≠ s.foreignAttempts.map ApplyAttempt.reported :=
        map_filter_updateFirst hfind (decide_eq_true hforeign) (decide_eq_true hforeign) hreported
      rw [hfilter] at hkept
      exact hne (hkept.eq_of_length (by simpa using hlength))
    | _ => exact hrevives
  · intro hnot
    exact ⟨(ho.foreignAttempts h hnot).map _, fun attempt hnames hforeign =>
      ho.refuses_foreign h hnot hnames hforeign⟩

/-- In a run every call keeps the attempts of other incarnations as they are and accepts no report
on one if and only if no effect report revives one. -/
theorem foreign_attempts_kept_iff (events : List Event) :
    Runs.Along System.next (OnCall ForeignKept) {} events ↔
      Runs.Along System.next (OnCall fun s env call => ¬ Revives s env call) {} events := by
  have hcall : ∀ sys event, Live ForeignTerminal sys →
      (OnCall ForeignKept sys event ↔ OnCall (fun s env call => ¬ Revives s env call) sys event) := by
    intro sys event hlive
    cases event with
    | call env call => exact forall₂_congr fun s hs => foreignKept_iff (hlive s hs) env call
    | _ => exact Iff.rfl
  have hstart : Live ForeignTerminal {} := by
    intro s hs
    exact absurd hs (by simp)
  constructor
  · exact Runs.Along.of_invariant (I := Live ForeignTerminal) (fun sys event hlive hkept =>
      ⟨live_foreignTerminal hlive event, (hcall sys event hlive).mp hkept⟩) hstart
  · exact Runs.Along.of_invariant (I := Live ForeignTerminal) (fun sys event hlive hnot =>
      ⟨live_foreignTerminal hlive event, (hcall sys event hlive).mpr hnot⟩) hstart

/-- A report on an attempt that was ambiguous before the restart is accepted after it. -/
theorem foreign_attempt_revived :
    ¬ ∀ events, Runs.Along System.next (OnCall ForeignKept) {} events := by
  intro h
  -- the acknowledgement names a digest of no boundary, which leaves the attempt ambiguous
  have hkept := h (Sample.submitted ++
    [Sample.does (.acknowledge ⟨⟨1, 1⟩, 1, Sample.boot 1, 1, Sample.boot 9, 1, Digest.zero, true⟩),
      .crash 0, Sample.opens 2,
      Sample.does (.verifyEffect
        ⟨⟨1, 1⟩, 2, Sample.boot 2, 1, Sample.boot 9, 2, Digest.zero, .unknown⟩)])
  revert hkept
  decide +kernel

end Fcfn
