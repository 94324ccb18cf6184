import Fcfn.Runtime.Checkpoints
import Fcfn.Runtime.InFlight
import Fcfn.Runtime.Reassertion

/-!
# The cached effect state

`effect_state` caches what `recomputeEffectState` derives from the table of attempts. A report that
is taken in changes the table before its record is committed, and the cache is brought up to date
only where the call succeeds or the report is an effect report that observed another boundary. A
submission and an accepted transition write the cache without deriving it. `LeavesStale` lists the
calls after which the two differ, and `KeepsNewest` the opens; in a run without them the cache is
always the derived state (`effect_derived`). -/

namespace Fcfn

open Words Stateful RuntimeState DurableStore Tables

namespace RuntimeState

/-- Deriving the effect state again does not change it. -/
def EffectDerived (s : RuntimeState) : Prop :=
  s.recomputeEffectState.effect_state = s.effect_state

instance EffectDerived.instDecidable (s : RuntimeState) : Decidable s.EffectDerived :=
  inferInstanceAs (Decidable (_ = _))

/-- The effect state is derived from the attempt. -/
def DerivesFrom (s : RuntimeState) (attempt : ApplyAttempt) : Prop :=
  (s.boundary_plan ≠ 0 ∨ s.boundary ≠ none) ∧
    s.Sees s.effect_requires_reverification s.boundary_plan attempt

instance DerivesFrom.instDecidable (s : RuntimeState) (attempt : ApplyAttempt) :
    Decidable (s.DerivesFrom attempt) :=
  inferInstanceAs (Decidable (_ ∧ _))

/-- The effect state is derived from the next attempt, once it is submitted for a plan: the flag is
clear, the plan is in force, and no attempt that is still retained then is as new. -/
def DerivesFromNext (s : RuntimeState) (plan : PlanGeneration) : Prop :=
  s.effect_requires_reverification = false ∧ plan = s.boundary_plan ∧
    ∀ a ∈ dropExcess (s.config.max_retained_attempts - 1) s.attempts, a.id.plan = plan →
      a.id.sequence < s.attempt_counter + 1

instance DerivesFromNext.instDecidable (s : RuntimeState) (plan : PlanGeneration) :
    Decidable (s.DerivesFromNext plan) :=
  inferInstanceAs (Decidable (_ ∧ _ ∧ _))

end RuntimeState

/-- The calls that leave the cache out of date: a submission that is recorded and that the effect
state is not derived from; an acknowledgement or an effect report on the attempt that it is derived
from, if it is refused once it has changed the attempt; and a transition that is recorded, to a plan
with an attempt. -/
def LeavesStale (s : RuntimeState) (env : Env) : Call → Prop
  | .submitApply id generation plan_digest =>
    (s.validateAuthorization env.now_millis id true).1.isOk = true ∧
      ∃ plan ∈ (s.checkSubmit generation plan_digest).toOption,
        s.Committable env
          (encodeAttempt (s.countAttempt.newAttempt plan env.later_millis)) ∧
        ¬ s.DerivesFromNext plan.generation
  | .acknowledge ack =>
    ∃ attempt ∈ (s.checkAcknowledgement ack).toOption, s.DerivesFrom attempt ∧
      (ack.observed_boundary_digest ≠ attempt.boundary_digest ∨
        (attempt.acknowledged ack env.now_millis).state ≠ attempt.state ∧
        ¬ s.Committable env (encodeAttempt (attempt.acknowledged ack env.now_millis)))
  | .verifyEffect report =>
    ∃ attempt ∈ (s.checkVerification report).toOption, s.DerivesFrom attempt ∧
      (attempt.observed report env.now_millis).state ≠ attempt.state ∧
      ¬ s.Committable env (encodeAttempt (attempt.observed report env.now_millis))
  | .transition request =>
    (s.countTransition.validateAuthorization env.now_millis request.authorization false).1.isOk =
        true ∧
      ∃ passed ∈ (s.countTransition.checkTransition request
          (s.countTransition.startDecision request)).toOption,
        (s.Committable env (encodeTransition passed.2) ∧
          (s.countTransition.committed .transitionDecision
            (encodeTransition passed.2)).Committable env
              (encodeBoundaryDecision (boundaryRecord passed.1 passed.2))) ∧
        ∃ attempt ∈ s.attempts, attempt.id.plan = passed.1.generation
  | _ => False

instance LeavesStale.instDecidable (s : RuntimeState) (env : Env) (call : Call) :
    Decidable (LeavesStale s env call) :=
  match call with
  | .submitApply _ generation plan_digest =>
    inferInstanceAs (Decidable (_ ∧ ∃ plan ∈ (s.checkSubmit generation plan_digest).toOption, _))
  | .acknowledge ack =>
    inferInstanceAs (Decidable (∃ attempt ∈ (s.checkAcknowledgement ack).toOption, _))
  | .verifyEffect report =>
    inferInstanceAs (Decidable (∃ attempt ∈ (s.checkVerification report).toOption, _))
  | .transition request =>
    inferInstanceAs (Decidable (_ ∧ ∃ passed ∈ (s.countTransition.checkTransition request
      (s.countTransition.startDecision request)).toOption, _))
  | .applyTopology _ | .applyPolicy _ | .recordDetection _ | .authorize | .plan _ | .checkpoint =>
    inferInstanceAs (Decidable False)

/-! ## What the effect state is derived from -/

section Derivation

variable {s s' : RuntimeState}

theorem effectDerived_iff : s.EffectDerived ↔ s.derivedEffectState = s.effect_state := Iff.rfl

/-- The state that the attempts of the plan in force give the boundary. -/
def attemptedState (plan : PlanGeneration) (attempts : List ApplyAttempt) : EffectState :=
  ((newestAttempt plan attempts).map ApplyAttempt.state).getD .notRequested

/-- What the effect state is derived from. -/
theorem derivedEffectState_eq (s : RuntimeState) :
    s.derivedEffectState = if s.effect_requires_reverification then .ambiguous
      else if s.boundary_plan = 0 ∧ s.boundary = none then .notRequested
      else attemptedState s.boundary_plan s.attempts := by
  unfold derivedEffectState attemptedState
  cases newestAttempt s.boundary_plan s.attempts <;> rfl

/-- Once the effect state has been derived again it is the derived one. -/
theorem effectDerived_recompute (s : RuntimeState) : s.recomputeEffectState.EffectDerived := rfl

/-- The derived state is read off the table of attempts, the boundary, its plan and the flag. -/
theorem RuntimeState.EffectDerived.congr (h : s.EffectDerived) (hattempts : s'.attempts = s.attempts)
    (hboundary : s'.boundary = s.boundary) (hplan : s'.boundary_plan = s.boundary_plan)
    (hflag : s'.effect_requires_reverification = s.effect_requires_reverification)
    (heffect : s'.effect_state = s.effect_state) : s'.EffectDerived := by
  rw [effectDerived_iff, derivedEffectState_eq, hattempts, hboundary, hplan, hflag, heffect,
    ← derivedEffectState_eq]
  exact h

/-- Changing an attempt leaves the derived state alone, if the attempt that it is derived from keeps
its state. -/
theorem RuntimeState.EffectDerived.setAttempt (h : s.EffectDerived) {id : ApplyAttemptId}
    {attempt attempt' : ApplyAttempt} (hfind : s.findAttempt id = some attempt)
    (hid : attempt'.id = id) (hkeep : s.DerivesFrom attempt → attempt'.state = attempt.state) :
    (s.setAttempt id attempt').EffectDerived := by
  have hderived : (s.setAttempt id attempt').derivedEffectState = s.derivedEffectState := by
    rw [derivedEffectState_eq, derivedEffectState_eq]
    change (if s.effect_requires_reverification then _ else
      if s.boundary_plan = 0 ∧ s.boundary = none then _ else
        attemptedState s.boundary_plan (updateFirst _ _ s.attempts)) = _
    by_cases hflag : s.effect_requires_reverification = true
    · rw [if_pos hflag, if_pos hflag]
    by_cases hpresent : s.boundary_plan = 0 ∧ s.boundary = none
    · rw [if_pos hpresent, if_pos hpresent]
    rw [if_neg hflag, if_neg hflag, if_neg hpresent, if_neg hpresent, attemptedState, attemptedState,
      newestAttempt_updateFirst _ _ hid]
    cases hnewest : newestAttempt s.boundary_plan s.attempts with
    | none => rfl
    | some newest =>
      simp only [Option.map_some, Option.getD_some]
      split
      · rename_i hnewid
        -- the first attempt with the identity of the newest one is the newest one
        have hsame : newest = attempt := by
          rw [← hnewid] at hfind
          exact Option.some.inj ((newestAttempt_find hnewest).2.symm.trans hfind)
        subst hsame
        exact hkeep ⟨not_and_or.mp hpresent, by simpa using hflag, hnewest⟩
      · rfl
  exact effectDerived_iff.mpr (hderived.trans h)

/-- The newest attempt of a table whose attempts are changed but for their identities. -/
theorem newestAttempt_map {change : ApplyAttempt → ApplyAttempt}
    (hid : ∀ attempt, (change attempt).id = attempt.id) (plan : PlanGeneration)
    (attempts : List ApplyAttempt) :
    newestAttempt plan (attempts.map change) = (newestAttempt plan attempts).map change := by
  induction attempts using List.reverseRecOn with
  | nil => rfl
  | append_singleton attempts last ih =>
    rw [List.map_append, List.map_singleton, newestAttempt_append, newestAttempt_append, ih, hid]
    split
    · rfl
    · have hall : ((newestAttempt plan attempts).map change).all
          (fun newest => decide (newest.id.sequence < last.id.sequence)) =
          (newestAttempt plan attempts).all
            (fun newest => decide (newest.id.sequence < last.id.sequence)) := by
        cases newestAttempt plan attempts with
        | none => rfl
        | some newest => simp [hid]
      rw [hall]
      split <;> rfl

/-- Room for a new attempt is made before it is added. -/
theorem dropExcess_concat {bound : ℕ} (hbound : 0 < bound) (attempts : List ApplyAttempt)
    (attempt : ApplyAttempt) :
    dropExcess bound (attempts ++ [attempt]) = dropExcess (bound - 1) attempts ++ [attempt] := by
  have hle : attempts.length - (bound - 1) ≤ attempts.length := Nat.sub_le _ _
  have hcount : (attempts ++ [attempt]).length - bound = attempts.length - (bound - 1) := by
    rw [List.length_append, List.length_singleton]
    omega
  rw [dropExcess, dropExcess, hcount, List.drop_append_of_le_length hle]

end Derivation

/-! ## Calls -/

/-- A recorded submission that the effect state is derived from. -/
theorem effectDerived_submitted {s : RuntimeState} {plan : ContainmentPlan} {now : UInt64}
    (hbounded : s.Bounded) (hpresent : s.boundary ≠ none)
    (h : s.DerivesFromNext plan.generation) :
    ((s.countAttempt.committed .applyAttempt
      (encodeAttempt (s.countAttempt.newAttempt plan now))).publishAttempt
        (s.countAttempt.newAttempt plan now)).EffectDerived := by
  obtain ⟨hflag, hplan, hnewer⟩ := h
  have hbound : 0 < s.config.max_retained_attempts := by
    have hconfig := hbounded.config
    simp only [checkConfig, require_bind_eq_ok, Bool.and_eq_true, bne_iff_ne] at hconfig
    exact Nat.pos_of_ne_zero hconfig.2.1.1
  -- the attempt is last in the table, and newer than the others of its plan
  have hnewest : newestAttempt s.boundary_plan (dropExcess s.config.max_retained_attempts
      (s.attempts ++ [s.countAttempt.newAttempt plan now])) =
        some (s.countAttempt.newAttempt plan now) := by
    have hof : (s.countAttempt.newAttempt plan now).id.plan = s.boundary_plan := hplan
    rw [dropExcess_concat hbound, newestAttempt_append, if_neg (not_not.mpr hof), if_pos]
    cases hold : newestAttempt s.boundary_plan
        (dropExcess (s.config.max_retained_attempts - 1) s.attempts) with
    | none => rfl
    | some newest =>
      obtain ⟨hof, hfind⟩ := newestAttempt_find hold
      exact decide_eq_true (hnewer newest (List.mem_of_find?_eq_some hfind) (hof.trans hplan.symm))
  rw [effectDerived_iff, derivedEffectState_eq]
  change (if s.effect_requires_reverification then _ else
    if s.boundary_plan = 0 ∧ s.boundary = none then _ else
      attemptedState s.boundary_plan (dropExcess s.config.max_retained_attempts
        (s.attempts ++ [s.countAttempt.newAttempt plan now]))) = _
  rw [attemptedState, hnewest, if_neg (by simp [hflag]), if_neg fun hnone => hpresent hnone.2]
  rfl

/-- An acknowledgement that leaves nothing stale keeps the cache. -/
theorem effectDerived_acknowledge {env : Env} {s : RuntimeState} {ack : ApplyAcknowledgement}
    (h : s.EffectDerived) (hfresh : ¬ LeavesStale s env (.acknowledge ack)) :
    (exec (perform env (.acknowledge ack)) s).2.EffectDerived := by
  change (exec (Reply.acknowledged <$> acknowledge env ack) s).2.EffectDerived
  rw [exec_map]
  simp only [acknowledge, exec_bind, exec_get, exec_lift]
  cases hcheck : s.checkAcknowledgement ack with
  | error status => exact h
  | ok attempt =>
    obtain ⟨hfind, -⟩ := checkAcknowledgement_ok hcheck
    have hid : attempt.id = ack.id := findAttempt_id hfind
    simp only
    -- a mismatch is stored whether or not its record is committed, an acknowledgement is derived
    -- from once it is
    split
    · rename_i hdigest
      have hset : (s.setAttempt ack.id attempt.mismatched).EffectDerived :=
        h.setAttempt hfind hid fun hfrom => absurd
          ⟨attempt, mem_toOption.mpr hcheck, hfrom, Or.inl hdigest⟩ hfresh
      simp only [exec_bind, exec_modify]
      rcases exec_commit env .applyAcknowledgement (encodeAttempt attempt.mismatched)
        (s.setAttempt ack.id attempt.mismatched) with ⟨hc, -⟩ | ⟨⟨status, hc⟩, -⟩
      · simp only [hc, exec_throw]
        exact hset
      · simp only [hc]
        exact hset
    · simp only [exec_bind, exec_modify]
      rcases exec_commit env .applyAcknowledgement
        (encodeAttempt (attempt.acknowledged ack env.now_millis))
          (s.setAttempt ack.id (attempt.acknowledged ack env.now_millis)) with
        ⟨hc, -⟩ | ⟨⟨status, hc⟩, hcommittable⟩
      · simp only [hc, exec_pure]
        exact effectDerived_recompute _
      · simp only [hc]
        refine h.setAttempt hfind hid fun hfrom => ?_
        by_contra hstate
        exact hfresh ⟨attempt, mem_toOption.mpr hcheck, hfrom, Or.inr ⟨hstate, hcommittable⟩⟩

/-- An effect report that leaves nothing stale keeps the cache. -/
theorem effectDerived_verifyEffect {env : Env} {s : RuntimeState} {report : EffectVerification}
    (h : s.EffectDerived) (hfresh : ¬ LeavesStale s env (.verifyEffect report)) :
    (exec (perform env (.verifyEffect report)) s).2.EffectDerived := by
  change (exec (Reply.verified <$> verifyEffect env report) s).2.EffectDerived
  rw [exec_map]
  simp only [verifyEffect, exec_bind, exec_get, exec_lift]
  cases hcheck : s.checkVerification report with
  | error status => exact h
  | ok attempt =>
    obtain ⟨hfind, -⟩ := checkVerification_ok_iff.mp hcheck
    simp only [exec_modify]
    rcases exec_commit env .effectVerification
      (encodeAttempt (attempt.observed report env.now_millis))
        (s.setAttempt report.id (attempt.observed report env.now_millis)) with
      ⟨hc, -⟩ | ⟨⟨status, hc⟩, hcommittable⟩
    · simp only [hc]
      cases htext : mismatchText report.observation
          (report.observed_boundary_digest = attempt.boundary_digest) with
      | some text =>
        simp only [exec_bind, exec_modify, exec_throw]
        exact effectDerived_recompute _
      | none =>
        simp only [exec_bind, exec_modify, exec_pure]
        exact effectDerived_recompute _
    · simp only [hc]
      -- the commit failed after the attempt was changed, which the condition allows only without
      -- effect
      refine h.setAttempt hfind (observed_id.trans (findAttempt_id hfind)) fun hfrom => ?_
      by_contra hstate
      exact hfresh ⟨attempt, mem_toOption.mpr hcheck, hfrom, hstate, hcommittable⟩

/-- A recorded transition to a plan without attempts. -/
theorem effectDerived_transition {s : RuntimeState} {plan : ContainmentPlan}
    {decision : TransitionDecision}
    (hnone : ∀ attempt ∈ s.attempts, attempt.id.plan ≠ plan.generation) :
    (s.publishBoundary plan decision).EffectDerived := by
  have hnewest : newestAttempt plan.generation
      (dropExcess s.config.max_retained_attempts s.attempts) = none :=
    newestAttempt_eq_none.mpr fun a ha => hnone a (mem_of_mem_dropExcess ha)
  have hattempted : attemptedState plan.generation
      (dropExcess s.config.max_retained_attempts s.attempts) = .notRequested := by
    rw [attemptedState, hnewest]
    rfl
  rw [effectDerived_iff, derivedEffectState_eq]
  change (if false = true then _ else if _ then EffectState.notRequested else
    attemptedState plan.generation (dropExcess s.config.max_retained_attempts s.attempts)) =
      EffectState.notRequested
  rw [hattempted, if_neg Bool.false_ne_true, ite_self]

/-- A call that leaves nothing stale keeps the cache. -/
theorem effectDerived_perform {env : Env} {s : RuntimeState} {call : Call} (hbounded : s.Bounded)
    (h : s.EffectDerived) (hfresh : ¬ LeavesStale s env call) :
    (exec (perform env call) s).2.EffectDerived := by
  have ho := perform_outcome env s call
  generalize (exec (perform env call) s).1 = reply at ho
  generalize hs' : (exec (perform env call) s).2 = s' at ho ⊢
  -- recording a decision or a plan evicts attempts, and the table is within its bound
  have hevicted := dropExcess_of_le hbounded.attempts
  cases ho with
  | detected => exact h.congr hevicted rfl rfl rfl rfl
  | planned => exact h.congr hevicted rfl rfl rfl rfl
  | transitionFailed _ _ counted =>
    rcases counted with rfl | rfl <;> exact h.congr rfl rfl rfl rfl rfl
  | transitionRefused _ _ _ counted =>
    rcases counted with rfl | rfl <;> exact h.congr hevicted rfl rfl rfl rfl
  -- a new boundary starts without attempts, unless the table has some of its plan
  | @transitionAccepted request record plan decision published authorized checked decided committable =>
    have hpassed : (plan, decision) ∈ (s.countTransition.checkTransition request
        (s.countTransition.startDecision request)).toOption := by
      rw [checked]
      rfl
    refine effectDerived_transition fun a ha hplan => hfresh ⟨?_, (plan, decision), hpassed,
      ⟨committable.1, ?_⟩, a, ha, hplan⟩
    · rw [authorized]
      rfl
    · have hsame : boundaryRecord plan published = boundaryRecord plan decision := by
        rw [decided]
        rfl
      rw [← hsame]
      exact committable.2
  | @submitted id record generation plan_digest plan authorized checked committable =>
    obtain ⟨-, -, -, boundary, hboundary, -⟩ := checkSubmit_ok checked
    refine effectDerived_submitted hbounded (by simp [hboundary]) ?_
    by_contra hnext
    exact hfresh ⟨by rw [authorized]; rfl, plan, mem_toOption.mpr checked, committable, hnext⟩
  | ackMismatched | ackFailed | acknowledged => exact hs' ▸ effectDerived_acknowledge h hfresh
  | verifyFailed | verifyMismatched | verified => exact hs' ▸ effectDerived_verifyEffect h hfresh
  | _ => exact h.congr rfl rfl rfl rfl rfl

/-! ## Opens -/

/-- No attempt has never been requested. -/
def requested : Contents := attemptsWith fun attempt => attempt.state ≠ .notRequested

/-- Every part of the runtime requests what it puts in the table. -/
theorem requested_kept : requested.Kept fun _ _ _ => True :=
  attemptsWith_kept
    (by
      intro attempt h
      unfold fenceAttempt
      split
      · exact h
      · simp)
    (by
      intro env s call attempt _ _ hwrites
      cases hwrites with
      | submitted => simp [newAttempt]
      | acknowledged attempt' _ taken =>
        rcases taken with rfl | rfl
        · simp [ApplyAttempt.mismatched]
        · simp only [ApplyAttempt.acknowledged]
          split <;> simp
      | verified => exact (terminal_iff.mp (observed_terminal _ _ _)).1)

/-- The open keeps the attempt that the effect state is derived from among the retained ones, when
that state is one that an open takes over. -/
def KeepsNewest (s : RuntimeState) : Prop :=
  ∀ newest ∈ newestAttempt s.boundary_plan s.attempts,
    (s.boundary_plan ≠ 0 ∨ s.boundary ≠ none) → mustReverify newest.state = false →
      newestAttempt s.boundary_plan (dropExcess s.config.max_retained_attempts s.attempts) =
        some newest

instance KeepsNewest.instDecidable (s : RuntimeState) : Decidable (KeepsNewest s) :=
  inferInstanceAs (Decidable (∀ newest ∈ newestAttempt s.boundary_plan s.attempts, _))

/-- After an open that keeps the newest attempt the cache is the derived state. -/
theorem effectDerived_started {s₀ s : RuntimeState} {boot : BootIdentity}
    (hstarted : Started (s₀.incarnate boot) s) (hflag : s₀.effect_requires_reverification = false)
    (hrequested : ∀ attempt ∈ s₀.attempts, attempt.state ≠ .notRequested)
    (hkeeps : KeepsNewest s₀) : s.EffectDerived := by
  have hsame := hstarted.same
  have hattempts : s.attempts =
      dropExcess s₀.config.max_retained_attempts (s₀.attempts.map fenceAttempt) := hsame.attempts
  have heffect : s.effect_state = if mustReverify s₀.derivedEffectState then .ambiguous
      else s₀.derivedEffectState := hsame.effect_state
  have hreverify : s.effect_requires_reverification = mustReverify s₀.derivedEffectState := by
    rw [hsame.effect_requires_reverification]
    change (_ || s₀.effect_requires_reverification) = _
    rw [hflag, Bool.or_false]
  have hboundary : s.boundary = s₀.boundary := hsame.boundary
  have hplan : s.boundary_plan = s₀.boundary_plan := hsame.boundary_plan
  rw [effectDerived_iff, heffect, derivedEffectState_eq, hreverify, hboundary, hplan]
  cases hmust : mustReverify s₀.derivedEffectState with
  | true => rfl
  | false =>
    rw [if_neg Bool.false_ne_true, if_neg Bool.false_ne_true]
    rw [derivedEffectState_eq, hflag, if_neg Bool.false_ne_true] at hmust ⊢
    by_cases hpresent : s₀.boundary_plan = 0 ∧ s₀.boundary = none
    · rw [if_pos hpresent, if_pos hpresent]
    rw [if_neg hpresent] at hmust
    rw [if_neg hpresent, if_neg hpresent, attemptedState, attemptedState]
    have hdrop : s.attempts =
        (dropExcess s₀.config.max_retained_attempts s₀.attempts).map fenceAttempt := by
      rw [hattempts, dropExcess, dropExcess, List.length_map, List.map_drop]
    have hid : ∀ attempt, (fenceAttempt attempt).id = attempt.id := by
      intro attempt
      unfold fenceAttempt
      split <;> rfl
    rw [hdrop, newestAttempt_map hid]
    cases hnewest : newestAttempt s₀.boundary_plan s₀.attempts with
    | none =>
      have hnone := newestAttempt_eq_none.mp hnewest
      rw [newestAttempt_eq_none.mpr fun a ha => hnone a (mem_of_mem_dropExcess ha)]
      rfl
    | some newest =>
      rw [attemptedState, hnewest] at hmust
      have hmust : mustReverify newest.state = false := hmust
      have hin : newest ∈ s₀.attempts := List.mem_of_find?_eq_some (newestAttempt_find hnewest).2
      rw [hkeeps newest hnewest (not_and_or.mp hpresent) hmust]
      -- a state that an open takes over is terminal, so the attempt is not fenced
      have hterminal : newest.terminal = true := by
        refine terminal_iff.mpr ⟨hrequested newest hin, fun hstate => ?_, fun hstate => ?_⟩
        · simp [hstate, mustReverify] at hmust
        · simp [hstate, mustReverify] at hmust
      simp [fenceAttempt, hterminal]

/-! ## Runs -/

/-- No step makes the cache stale: no call, and no open that finds more attempts than it retains. -/
def NothingStale (sys : System) : Event → Prop
  | .open_ config env boot => sys.runtime = none →
    (openRuntime config env boot sys.disk).1.isOk = true →
      ∀ s ∈ (recover config sys.disk).1.toOption, KeepsNewest s
  | .call env call => ∀ s ∈ sys.runtime, ¬ LeavesStale s env call
  | .crash _ => True

/-- In every state that a run reaches the cached effect state is the derived one, if no step makes
it stale. -/
theorem effect_derived {events : List Event}
    (h : Runs.Along System.next NothingStale {} events) :
    Live EffectDerived (Runs.exec System.next {} events) := by
  have hstep : ∀ sys event, (requested.Holds sys ∧ Live Bounded sys ∧ Live EffectDerived sys) →
      NothingStale sys event → requested.Holds (sys.next event) ∧ Live Bounded (sys.next event) ∧
        Live EffectDerived (sys.next event) := by
    rintro sys event ⟨hrequested, hbounded, hderived⟩ hfresh
    have hholds : requested.Holds (sys.next event) := hrequested.next requested_kept (by
      cases event with
      | call env call => exact fun _ _ => trivial
      | open_ config env boot => exact trivial
      | crash torn_bytes => exact trivial)
    refine ⟨hholds, forall₂_and.mp (Live.next (fun s hs => ⟨hbounded s hs, hderived s hs⟩)
      (fun config env boot s hevent hrun hok => ?_) fun env call s hevent hrun hs => ?_)⟩
    · subst hevent
      obtain ⟨s₀, disk₀, hrecover, hstarted, -⟩ := openRuntime_ok (Prod.ext hok rfl)
      -- the tables of a new incarnation are cut down to its own bounds
      have hkeeps := hfresh hrun (by rw [hok]; rfl) s₀ (by rw [hrecover]; rfl)
      exact ⟨openRuntime_bounded (Prod.ext hok rfl), effectDerived_started hstarted
        (recover_flag hrecover) (requested_kept.recovered hrequested.disk hrecover) hkeeps⟩
    · subst hevent
      exact ⟨(perform_outcome env s call).bounded hs.1,
        effectDerived_perform hs.1 hs.2 (hfresh s hrun)⟩
  have hstart : requested.Holds {} ∧ Live Bounded {} ∧ Live EffectDerived {} :=
    ⟨.start, fun s hs => absurd hs (by simp), fun s hs => absurd hs (by simp)⟩
  exact (Runs.invariant hstep hstart h).2.2

instance NothingStale.instDecidable (sys : System) : (event : Event) →
    Decidable (NothingStale sys event)
  | .open_ config env boot =>
    have : Decidable (∀ s ∈ (recover config sys.disk).1.toOption, KeepsNewest s) :=
      Option.decidableForallMem _
    have hiff : (sys.runtime.isNone → (openRuntime config env boot sys.disk).1.isOk = true →
        ∀ s ∈ (recover config sys.disk).1.toOption, KeepsNewest s) ↔
          NothingStale sys (.open_ config env boot) := by
      rw [Option.isNone_iff_eq_none]
      rfl
    decidable_of_iff _ hiff
  | .call env call =>
    inferInstanceAs (Decidable (∀ s ∈ sys.runtime, ¬ LeavesStale s env call))
  | .crash _ => inferInstanceAs (Decidable True)

/-- An attempt that is acknowledged and verified, and a restart after it. -/
theorem effect_derived_verified :
    Live EffectDerived (Runs.exec System.next {}
      ((Sample.submitted |> Sample.thenAcknowledge ⟨1, 1⟩ 1 1 true |>
        Sample.thenVerify ⟨1, 1⟩ 1 2 .applied) ++ [.crash 0, Sample.opens 2])) :=
  effect_derived (by decide +kernel)

/-- An acknowledgement of another boundary makes the attempt ambiguous and leaves the cache. -/
theorem acknowledgement_stale :
    ¬ ∀ events, Live EffectDerived (Runs.exec System.next {} events) := by
  intro h
  have hlive := h (Sample.submitted ++ [Sample.does (.acknowledge
    ⟨⟨1, 1⟩, 1, Sample.boot 1, 1, Sample.boot 9, 1, Digest.zero, true⟩)])
  revert hlive
  decide +kernel

end Fcfn
