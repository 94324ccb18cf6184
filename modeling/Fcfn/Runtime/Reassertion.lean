import Fcfn.Runtime.Replay

/-!
# Surviving boundaries

After a restart the boundary in force has to be applied again, and an attempt is let through in some
effect states only. The effect state after an open is derived from the newest attempt that the store
holds for the plan in force. In flight it is fenced and the boundary is ambiguous; but an attempt
that a checkpoint saved after it was fenced is read back as FENCED, and no attempt is let through
any more. `opens_reassertable_iff` says that this is the only way to get stuck. -/

namespace Fcfn

open Words Stateful RuntimeState DurableStore Tables

/-- The boundary in force can be applied again: the effect state is one from which an attempt can be
submitted, and submitting a retained plan for the boundary passes its checks. -/
structure Reassertable (s : RuntimeState) (boundary : ContainmentBoundary) : Prop where
  effect : s.effect_state = .notRequested ∨ s.effect_state = .failed ∨ s.effect_state = .ambiguous
  submit : ∀ generation plan, s.findPlan generation = some plan →
    (s.isCurrentDecision boundary plan || plan.boundary.sameMembers boundary) = true →
      s.checkSubmit generation plan.digest = .ok plan

/-- The effect states from which an attempt can be submitted. -/
theorem mayAttempt_iff {effect : EffectState} :
    mayAttempt effect = true ↔ effect = .notRequested ∨ effect = .failed ∨ effect = .ambiguous := by
  cases effect <;> simp [mayAttempt]

/-- A boundary can be applied again exactly when the effect state lets an attempt through. -/
theorem reassertable_iff {s : RuntimeState} {boundary : ContainmentBoundary}
    (h : s.boundary = some boundary) : Reassertable s boundary ↔ mayAttempt s.effect_state = true := by
  rw [mayAttempt_iff]
  refine ⟨Reassertable.effect, fun heffect => ⟨heffect, fun generation plan hfound hplan => ?_⟩⟩
  unfold checkSubmit
  rw [hfound, h]
  simp only [ne_eq, not_true_eq_false, if_false, hplan, mayAttempt_iff.mpr heffect, require_bind_eq_ok,
    pure_eq_ok, and_self]

/-- An attempt that an earlier open fenced, or that was superseded. -/
def Abandoned (attempt : ApplyAttempt) : Prop :=
  attempt.state = .fenced ∨ attempt.state = .superseded

instance Abandoned.instDecidable (attempt : ApplyAttempt) : Decidable (Abandoned attempt) :=
  inferInstanceAs (Decidable (_ ∨ _))

/-- After a restart an attempt is let through exactly when the newest of the plan in force was not
abandoned before. -/
theorem mayAttempt_incarnate {s : RuntimeState} (boot : BootIdentity)
    (hflag : s.effect_requires_reverification = false) (hboundary : s.boundary.isSome) :
    mayAttempt (s.incarnate boot).effect_state = true ↔
      ∀ newest ∈ newestAttempt s.boundary_plan s.attempts, ¬ Abandoned newest := by
  have hderived : s.derivedEffectState =
      ((newestAttempt s.boundary_plan s.attempts).map ApplyAttempt.state).getD .notRequested := by
    unfold derivedEffectState
    rw [hflag, if_neg (by simp), if_neg fun h => by simp [h.2] at hboundary]
    cases newestAttempt s.boundary_plan s.attempts <;> rfl
  have heffect : (s.incarnate boot).effect_state =
      if mustReverify s.derivedEffectState then .ambiguous else s.derivedEffectState := rfl
  rw [heffect, hderived]
  cases hn : newestAttempt s.boundary_plan s.attempts with
  | none => simp [mustReverify, mayAttempt]
  | some newest =>
    simp only [Option.map_some, Option.getD_some, Option.mem_some_iff, forall_eq', Abandoned]
    cases newest.state <;> simp [mustReverify, mayAttempt]

/-- A recovered state has not been told to have its effect verified again. -/
theorem recover_flag {config : RuntimeConfig} {disk disk' : Disk} {s : RuntimeState}
    (h : recover config disk = (.ok s, disk')) : s.effect_requires_reverification = false := by
  rcases recover_ok h with ⟨-, recovery, -, hrestore, -⟩ | ⟨-, rfl, -⟩
  · obtain ⟨s₀, hfrom, hreplay⟩ := restore_ok hrestore
    have hs₀ : s₀.effect_requires_reverification = false := by
      unfold restoreFrom at hfrom
      split at hfrom
      · obtain rfl := Except.ok.inj hfrom
        rfl
      · obtain ⟨-, -, -, -, -, -, -, -, -, -, rfl⟩ := restoreSnapshot_ok hfrom
        rfl
    refine replay_induction (P := fun s => s.effect_requires_reverification = false) ?_ hreplay hs₀
    intro s frame s' _ hframe hs
    cases hframe with
    | topology => split <;> exact hs
    | policy => split <;> exact hs
    | epoch => split <;> exact hs
    | attempt =>
      unfold replayAttempt
      split
      · exact hs
      · split <;> exact hs
    | _ => exact hs
  · rfl

/-- An open that succeeds leaves a boundary in force that can be applied again. -/
def OpensReassertable (sys : System) : Event → Prop
  | .open_ config env boot => sys.runtime = none →
    ∀ s ∈ (sys.next (.open_ config env boot)).runtime, ∀ boundary ∈ s.boundary,
      Reassertable s boundary
  | _ => True

/-- The store that an open succeeds on has not abandoned the newest attempt of the plan in force. -/
def NoneAbandoned (sys : System) : Event → Prop
  | .open_ config env boot => sys.runtime = none →
    (openRuntime config env boot sys.disk).1.isOk = true →
      ∀ s ∈ (recover config sys.disk).1.toOption, s.boundary.isSome →
        ∀ newest ∈ newestAttempt s.boundary_plan s.attempts, ¬ Abandoned newest
  | _ => True

/-- In every run the boundaries that survive an open can be applied again, exactly when no open finds
the newest attempt of the plan in force abandoned. -/
theorem opens_reassertable_iff (events : List Event) :
    Runs.Along System.next OpensReassertable {} events ↔
      Runs.Along System.next NoneAbandoned {} events := by
  refine Runs.Along.congr fun sys event => ?_
  cases event with
  | open_ config env boot =>
    refine forall_congr' fun hrun => ?_
    rw [next_open hrun]
    cases hopen : openRuntime config env boot sys.disk with
    | mk outcome disk =>
      cases outcome with
      | error status => simp [Except.toOption, Except.isOk, Except.toBool]
      | ok s =>
        obtain ⟨s₀, disk₀, hrecover, hstarted, -⟩ := openRuntime_ok hopen
        have hsame := hstarted.same
        have hboundary : s.boundary = s₀.boundary := hsame.boundary
        rw [hrecover]
        simp only [Except.toOption, Option.mem_some_iff, forall_eq', Except.isOk, Except.toBool,
          forall_const]
        cases hb : s₀.boundary with
        | none => simp [hboundary, hb]
        | some boundary =>
          rw [hb] at hboundary
          rw [hboundary, Option.isSome_some]
          simp only [Option.mem_some_iff, forall_eq', forall_const]
          rw [reassertable_iff hboundary, hsame.effect_state,
            mayAttempt_incarnate boot (recover_flag hrecover) (by simp [hb])]
  | call env call => exact Iff.rfl
  | crash torn_bytes => exact Iff.rfl

instance OpensReassertable.instDecidable (sys : System) :
    (event : Event) → Decidable (OpensReassertable sys event)
  | .open_ config env boot =>
    have _ : Decidable (∀ s ∈ (sys.next (.open_ config env boot)).runtime, s.boundary.isSome →
        mayAttempt s.effect_state = true) := Option.decidableForallMem _
    have hiff : ((sys.runtime.isNone → ∀ s ∈ (sys.next (.open_ config env boot)).runtime,
        s.boundary.isSome → mayAttempt s.effect_state = true)) ↔
          OpensReassertable sys (.open_ config env boot) := by
      unfold OpensReassertable
      rw [Option.isNone_iff_eq_none]
      refine forall_congr' fun _ => forall_congr' fun s => forall_congr' fun _ => ?_
      cases hb : s.boundary with
      | none => simp
      | some boundary => simp [reassertable_iff hb]
    decidable_of_iff _ hiff
  | .call _ _ | .crash _ => inferInstanceAs (Decidable True)

/-- A checkpoint after a restart saves the attempt that the restart has fenced. After the next
restart no attempt and no transition is let through. -/
theorem restart_wedges : ¬ ∀ events, Runs.Along System.next OpensReassertable {} events := by
  intro h
  have hopens := h (Sample.submitted ++ [.crash 0, Sample.opens 2, Sample.does .checkpoint, .crash 0,
    Sample.opens 3])
  revert hopens
  decide +kernel

end Fcfn
