import Fcfn.Engine.Recoverable
import Fcfn.Runtime.Contents
import Fcfn.Runtime.Planning

/-!
# Plan records

A plan is committed as it is encoded, whatever it claims. It is decoded again exactly when the
inputs it was computed from are `PlanInputs.Recoverable` (`nextPlan_decodable_iff`), and a store is
opened again, as far as its plans go, when this held of every plan that was committed. -/

namespace Fcfn

open Words Stateful RuntimeState DurableStore Tables

/-! ## Computed plans -/

/-- The plan that a reply returns. -/
def Reply.computed : Result Reply → Option ContainmentPlan
  | .ok (.plan computed) => some computed
  | _ => none

/-- The plans of a store do not stop an open: each record is replayed in any state, and each plan
of the snapshot is decoded as it was. -/
def PlansDecode (disk : Disk) : Prop :=
  (∀ frame ∈ disk.log, frame.type = .planDecision → ∀ s, ∃ s', applyReplayedFrame s frame = .ok s') ∧
    ∀ sequence payload, disk.snapshot = some (sequence, payload) →
      ∃ saved, payload = encodeDurableState saved ∧
        ∀ plan ∈ saved.plans, ContainmentPlan.decode plan.encode = .ok plan

/-- A plan that a durable runtime returns is what its record is decoded to, and a store that is
opened has only plans that can be decoded. -/
def PlansRecovered (sys : System) : Event → Prop
  | .open_ _ _ _ => PlansDecode sys.disk
  | .call env (.plan id) => sys.durable = true →
    ∀ plan ∈ Reply.computed (sys.reply (.call env (.plan id))),
      ∃ frame ∈ (sys.next (.call env (.plan id))).disk.log.getLast?,
        frame.type = .planDecision ∧ ContainmentPlan.decode frame.payload = .ok plan
  | _ => True

instance PlansRecovered.instDecidablePlan (sys : System) (env : Env) (id : AuthorizationId) :
    Decidable (PlansRecovered sys (.call env (.plan id))) :=
  inferInstanceAs (Decidable (_ → ∀ plan ∈ Reply.computed (sys.reply (.call env (.plan id))),
    ∃ frame ∈ (sys.next (.call env (.plan id))).disk.log.getLast?,
      frame.type = .planDecision ∧ ContainmentPlan.decode frame.payload = .ok plan))

/-- A call changes the table of plans only when it computes one. -/
theorem Outcome.plans {env : Env} {s s' : RuntimeState} {call : Call} {reply : Result Reply}
    (h : Outcome env s call reply s') :
    s'.plans.Sublist (s.plans ++ (Reply.computed reply).toList) := by
  have hkept : ∀ plans : List ContainmentPlan, plans.Sublist s.plans →
      plans.Sublist (s.plans ++ (Reply.computed reply).toList) :=
    fun plans hsub => hsub.trans (List.sublist_append_left _ _)
  cases h with
  | planned => exact dropExcess_sublist _ _
  | detected => exact hkept _ (dropExcess_sublist _ _)
  | transitionFailed _ _ counted => rcases counted with rfl | rfl <;> exact hkept _ (.refl _)
  | transitionRefused _ _ _ counted =>
    rcases counted with rfl | rfl <;> exact hkept _ (dropExcess_sublist _ _)
  | transitionAccepted => exact hkept _ (dropExcess_sublist _ _)
  | submitted => exact hkept _ (dropExcess_sublist _ _)
  | ackMismatched _ _ _ taken => rcases taken with rfl | ⟨-, rfl⟩ <;> exact hkept _ (.refl _)
  | verified =>
    rw [adoptVerified_eq]
    exact hkept _ (.refl _)
  | _ => exact hkept _ (.refl _)

/-- What has passed when a call returns a plan. -/
structure Computed (env : Env) (s : RuntimeState) (call : Call) (plan : ContainmentPlan)
    (s' : RuntimeState) : Prop where
  call : ∃ id, call = .plan id
  computed : ∃ t, s.topology = some t ∧ s.nextPlan t = .ok plan
  committable : s.Committable env plan.encode
  store : s'.store = s.store.map fun store => store.appended .planDecision plan.encode

/-- A call that returns a plan has computed and recorded it. -/
theorem Outcome.computed {env : Env} {s s' : RuntimeState} {call : Call} {reply : Result Reply}
    (h : Outcome env s call reply s') {plan : ContainmentPlan}
    (hplan : Reply.computed reply = some plan) : Computed env s call plan s' := by
  cases h with
  | planned _ loaded computed committable =>
    obtain rfl := Option.some.inj hplan
    exact ⟨⟨_, rfl⟩, ⟨_, loaded, computed⟩, committable, rfl⟩
  | _ => exact absurd hplan (by simp [Reply.computed])

end Fcfn
