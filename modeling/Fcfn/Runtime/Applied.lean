import Fcfn.Runtime.Contents
import Fcfn.Runtime.Identities

/-!
# Transitions leave an applied boundary

A transition away from a boundary is let through when the effect state is a verified one, and there
are two of these: the boundary was observed applied, or it was observed released. A report that the
boundary in force is gone therefore counts as verification of it. `leaves_applied` says that nothing
else does: where no such report is taken in, now or before a restart, a boundary in force is never
VERIFIED_RELEASED. -/

namespace Fcfn

open Words Stateful RuntimeState DurableStore Tables

/-- No attempt of a table was verified as released. -/
def Unreleased (attempts : List ApplyAttempt) : Prop :=
  ∀ attempt ∈ attempts, attempt.state ≠ .verifiedReleased

namespace RuntimeState

variable {s : RuntimeState}

/-- The effect state that is derived from such a table is not released. -/
theorem derivedEffectState_unreleased (h : Unreleased s.attempts) :
    s.derivedEffectState ≠ .verifiedReleased := by
  unfold derivedEffectState
  split
  · simp
  split
  · simp
  cases hn : newestAttempt s.boundary_plan s.attempts with
  | none => simp
  | some newest =>
    have hfind := (newestAttempt_find hn).2
    exact h newest (List.mem_of_find?_eq_some hfind)

end RuntimeState

/-- Where a call takes the effect state from. -/
theorem Outcome.effect {env : Env} {s s' : RuntimeState} {call : Call} {reply : Result Reply}
    (h : Outcome env s call reply s') :
    s'.effect_state = s.effect_state ∨ s'.effect_state = .notRequested ∨
      s'.effect_state = .submitted ∨ s'.effect_state = s'.derivedEffectState := by
  cases h with
  | transitionFailed _ _ counted => rcases counted with rfl | rfl <;> exact Or.inl rfl
  | transitionRefused _ _ _ counted => rcases counted with rfl | rfl <;> exact Or.inl rfl
  | transitionAccepted => exact Or.inr (Or.inl rfl)
  | submitted => exact Or.inr (Or.inr (Or.inl rfl))
  | ackMismatched _ _ _ taken => rcases taken with rfl | ⟨-, rfl⟩ <;> exact Or.inl rfl
  | acknowledged => exact Or.inr (Or.inr (Or.inr rfl))
  | verifyMismatched => exact Or.inr (Or.inr (Or.inr rfl))
  | verified => exact Or.inr (Or.inr (Or.inr rfl))
  | _ => exact Or.inl rfl

/-- A report does not say that the boundary of an attempt was released. -/
def TakesNoRelease (s : RuntimeState) (_ : Env) : Call → Prop
  | .verifyEffect report => report.observation = .released →
    ∀ attempt ∈ (s.checkVerification report).toOption,
      report.observed_boundary_digest ≠ attempt.boundary_digest
  | _ => True

/-- A report that does not say so leaves no released attempt. -/
theorem observed_unreleased {s : RuntimeState} {env : Env} {report : EffectVerification}
    {attempt : ApplyAttempt} (hp : TakesNoRelease s env (.verifyEffect report))
    (h : s.checkVerification report = .ok attempt) (now : UInt64) :
    (attempt.observed report now).state ≠ .verifiedReleased := by
  have hreleased : report.observation = .released →
      report.observed_boundary_digest ≠ attempt.boundary_digest :=
    fun hobservation => hp hobservation attempt (mem_toOption.mpr h)
  rw [observed_state]
  cases hobservation : report.observation with
  | applied => by_cases hd : report.observed_boundary_digest = attempt.boundary_digest <;>
      simp [observedState, hd]
  | released => simp [observedState, hreleased hobservation]
  | partiallyApplied => simp [observedState]
  | notApplied => simp [observedState]
  | unknown => simp [observedState]

/-- An acknowledgement leaves no released attempt. -/
theorem acknowledged_unreleased {attempt attempt' : ApplyAttempt} {ack : ApplyAcknowledgement}
    {now : UInt64} (h : attempt' = attempt.mismatched ∨ attempt' = attempt.acknowledged ack now) :
    attempt'.state ≠ .verifiedReleased := by
  rcases h with rfl | rfl
  · simp [ApplyAttempt.mismatched]
  · cases hacc : ack.accepted <;> simp [ApplyAttempt.acknowledged, hacc]

/-- Neither the live runtime nor its store has a released attempt. -/
def unreleased : Contents where
  live s := Unreleased s.attempts
  record type payload := type.OfAttempt → ∃ attempt : ApplyAttempt,
    payload = encodeAttempt attempt ∧ payload.length ≤ kMaxRecordPayloadBytes ∧
      attempt.state ≠ .verifiedReleased
  saved state := Unreleased state.attempts

/-- Every part of the runtime keeps the attempts unreleased, when no release is taken in. -/
theorem unreleased_kept : unreleased.Kept TakesNoRelease :=
  attemptsWith_kept
    (by
      intro attempt h
      unfold fenceAttempt
      split
      · exact h
      · simp)
    (by
      intro env s call attempt _ hp hwrites
      cases hwrites with
      | submitted => simp [newAttempt]
      | acknowledged attempt' _ taken => exact acknowledged_unreleased taken
      | verified checked => exact observed_unreleased hp checked _)

/-! ## Runs -/

/-- A boundary in force is not VERIFIED_RELEASED. -/
def KeepsApplied (s : RuntimeState) : Prop :=
  s.boundary.isSome → s.effect_state ≠ .verifiedReleased

instance KeepsApplied.instDecidable (s : RuntimeState) : Decidable (KeepsApplied s) :=
  inferInstanceAs (Decidable (_ → _))

/-- Whether a call asks for a transition. -/
def Call.isTransition : Call → Bool
  | .transition _ => true
  | _ => false

/-- A transition that is accepted leaves a boundary that is VERIFIED_APPLIED, and in the state after
the step a boundary in force is not VERIFIED_RELEASED. -/
def LeavesApplied (sys : System) (event : Event) : Prop :=
  Live KeepsApplied (sys.next event) ∧
    OnCall (fun s _ call => call.isTransition → Reply.accepts (sys.reply event) = true →
      s.boundary.isSome → s.effect_state = .verifiedApplied) sys event

instance LeavesApplied.instDecidable (sys : System) (event : Event) :
    Decidable (LeavesApplied sys event) :=
  inferInstanceAs (Decidable (_ ∧ _))

instance TakesNoRelease.instDecidable (s : RuntimeState) (env : Env) :
    (call : Call) → Decidable (TakesNoRelease s env call)
  | .verifyEffect report =>
    have _ : Decidable (∀ attempt ∈ (s.checkVerification report).toOption,
        report.observed_boundary_digest ≠ attempt.boundary_digest) := Option.decidableForallMem _
    inferInstanceAs (Decidable (_ → _))
  | .applyTopology _ | .applyPolicy _ | .recordDetection _ | .authorize | .plan _ | .transition _
  | .submitApply _ _ _ | .acknowledge _ | .checkpoint => inferInstanceAs (Decidable True)

/-- The live runtime has no released attempt, and its effect state is not the released one. -/
structure NeverReleased (sys : System) : Prop where
  contents : unreleased.Holds sys
  effect : Live (fun s => s.effect_state ≠ .verifiedReleased) sys

/-- A step that takes no release in keeps it so. -/
theorem NeverReleased.next {sys : System} (h : NeverReleased sys) {event : Event}
    (hp : OnCall TakesNoRelease sys event) : NeverReleased (sys.next event) := by
  have hcontents := h.contents.next unreleased_kept hp
  refine ⟨hcontents, Live.next h.effect (fun config env boot s _ _ hok => ?_)
    fun env call s hevent hrun hs => ?_⟩
  · obtain ⟨s₀, -, -, hstarted, -⟩ := openRuntime_ok (Prod.ext hok rfl)
    -- a verified effect is not current any more after a restart
    rw [hstarted.same.effect_state]
    unfold incarnate
    cases s₀.derivedEffectState <;> simp [mustReverify]
  · subst hevent
    have hlive := hcontents.live (exec (perform env call) s).2 (by rw [next_call hrun]; rfl)
    rcases (perform_outcome env s call).effect with heffect | heffect | heffect | heffect
    · rw [heffect]
      exact hs
    · simp [heffect]
    · simp [heffect]
    · rw [heffect]
      exact derivedEffectState_unreleased hlive

/-- An accepted transition has passed the gate on the effect of the boundary in force. -/
theorem Outcome.verified_of_accepts {env : Env} {s s' : RuntimeState} {request : TransitionRequest}
    {reply : Result Reply} (h : Outcome env s (.transition request) reply s')
    (haccepts : Reply.accepts reply = true) (hboundary : s.boundary.isSome) :
    isVerifiedEffect s.effect_state = true := by
  cases h with
  | transitionAccepted _ _ checked => exact (checkTransition_passed _ checked).verified hboundary
  | transitionRefused _ _ _ _ denied =>
    exact absurd haccepts (by simpa [Reply.accepts] using denied.1)
  | _ => exact absurd haccepts (by simp [Reply.accepts])

/-- In a run that takes no release in, transitions leave a boundary that is VERIFIED_APPLIED, and a
boundary in force is never VERIFIED_RELEASED. -/
theorem leaves_applied {events : List Event}
    (h : Runs.Along System.next (OnCall TakesNoRelease) {} events) :
    Runs.Along System.next LeavesApplied {} events := by
  refine Runs.Along.of_invariant (I := NeverReleased) (fun sys event hnever hp => ?_)
    ⟨.start, fun s hs => absurd hs (by simp)⟩ h
  have hnext := hnever.next hp
  refine ⟨hnext, fun s hs _ => hnext.effect s hs, ?_⟩
  cases event with
  | open_ config env boot => trivial
  | crash torn_bytes => trivial
  | call env call =>
    intro s hs htransition haccepts hboundary
    obtain ⟨request, rfl⟩ : ∃ request, call = .transition request := by
      cases call <;> simp [Call.isTransition] at htransition ⊢
    rw [reply_call hs] at haccepts
    have hverified := (perform_outcome env s (.transition request)).verified_of_accepts haccepts
      hboundary
    have hnot := hnever.effect s hs
    unfold isVerifiedEffect at hverified
    rw [Bool.or_eq_true, beq_iff_eq, beq_iff_eq] at hverified
    exact hverified.resolve_right hnot

/-- A run that applies a boundary, has it verified and then goes on to the next. -/
theorem leaves_applied_verified :
    Runs.Along System.next LeavesApplied {}
      (((Sample.submitted |> Sample.thenVerify ⟨1, 1⟩ 1 1 .applied) ++ [Sample.does (.plan 1)]) |>
        Sample.thenTransition .expand 2 (some 1) 1) :=
  leaves_applied (by decide +kernel)

/-- The enforcement plane reports that the boundary in force is gone, and the next transition is let
through. -/
theorem released_boundary_left : ¬ ∀ events, Runs.Along System.next LeavesApplied {} events := by
  intro h
  have hleaves := h (((Sample.submitted |> Sample.thenVerify ⟨1, 1⟩ 1 1 .released) ++
    [Sample.does (.plan 1)]) |> Sample.thenTransition .expand 2 (some 1) 1)
  revert hleaves
  decide +kernel

end Fcfn
