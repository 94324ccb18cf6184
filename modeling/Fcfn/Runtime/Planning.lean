import Fcfn.Engine.PlanFacts
import Fcfn.Runtime.Attempts

/-!
# The plans of a run

What the next plan carries of the state it was computed in: its generation, the authority in force,
and the digests of the topology, the policy and the evidence. Its boundary was created under the
plan's generation, or is the unset one. -/

namespace Fcfn

open Words Stateful RuntimeState

/-- The plan that an operation computes, before a contradiction is marked. -/
theorem nextPlan_ok {s : RuntimeState} {t : Topology} {plan : ContainmentPlan}
    (h : s.nextPlan t = .ok plan) :
    ∃ computed, computePlan (s.planInputs t) s.currentAuthority (s.plan_counter + 1) =
        .ok computed ∧
      plan = if s.evidence_conflict then markConflicting computed.plan else computed.plan := by
  unfold nextPlan at h
  simp only [bind_eq_ok, pure_eq_ok] at h
  obtain ⟨computed, hcompute, rfl⟩ := h
  exact ⟨computed, hcompute, rfl⟩

/-- Marking a contradiction keeps the origin and the boundary. -/
theorem markConflicting_origin (plan : ContainmentPlan) :
    SameOrigin plan (markConflicting plan) ∧ (markConflicting plan).boundary = plan.boundary :=
  ⟨⟨rfl, rfl, rfl, rfl, rfl, rfl, rfl⟩, rfl⟩

/-- The next plan carries what it was computed from, and a boundary of its generation or none. -/
theorem nextPlan_origin {s : RuntimeState} {t : Topology} {plan : ContainmentPlan}
    (h : s.nextPlan t = .ok plan) :
    SameOrigin ((s.planInputs t).initialPlan s.currentAuthority (s.plan_counter + 1)) plan ∧
      (plan.boundary = .unset ∨
        ∃ members, ContainmentBoundary.create (s.plan_counter + 1) members = .ok plan.boundary) := by
  obtain ⟨computed, hcompute, rfl⟩ := nextPlan_ok h
  obtain ⟨way, hsealed, hway⟩ := computePlan_way hcompute
  obtain ⟨horigin, hboundary⟩ := hway.origin
  have hcomputed : SameOrigin ((s.planInputs t).initialPlan s.currentAuthority
      (s.plan_counter + 1)) computed.plan := by
    rw [hsealed]
    exact horigin.trans ⟨rfl, rfl, rfl, rfl, rfl, rfl, rfl⟩
  have hcreated : computed.plan.boundary = .unset ∨
      ∃ members, ContainmentBoundary.create (s.plan_counter + 1) members =
        .ok computed.plan.boundary := by
    rw [hsealed]
    exact hboundary
  split
  · exact ⟨hcomputed.trans (markConflicting_origin _).1, hcreated⟩
  · exact ⟨hcomputed, hcreated⟩

/-- The next plan has the next generation. -/
theorem nextPlan_generation {s : RuntimeState} {t : Topology} {plan : ContainmentPlan}
    (h : s.nextPlan t = .ok plan) : plan.generation = s.plan_counter + 1 :=
  (nextPlan_origin h).1.generation

end Fcfn
