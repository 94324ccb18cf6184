import Fcfn.Engine.World

/-!
# When a plan claims containment

The claim of a plan read off the inputs it is computed from. `computePlan_claim_iff` says when the
plan claims that its boundary contains the failures, minimal or not, and `present_of_releasable`
says of which inputs a plan can be released while a resource is Present: those with nothing to
contain. -/

namespace Fcfn

open Words Sorted Walks ContainmentProblem

/-- What the solved problem has to be for the plan to claim containment. -/
def ProblemProvable (inputs : PlanInputs) (p : ContainmentProblem) : Prop :=
  ((solutionOf inputs p).status = .provenOptimal ∨
      (solutionOf inputs p).status = .feasibleNotProvenOptimal) ∧
    frontierCurrency inputs p = .current ∧
    (inputs.policy.require_failure_source_inclusion = true → p.uncontainable_sources = [])

/-- What the inputs have to be for the plan to claim containment: a known source when a resource is
Present, Current evidence, and containable sources where they must be members. -/
def PlanInputs.Provable (inputs : PlanInputs) : Prop :=
  (inputs.sources = [] → inputs.missingSources = []) ∧
    (inputs.sources ≠ [] → inputs.obligations = [] → SourcesProven inputs) ∧
    (inputs.sources ≠ [] → inputs.obligations ≠ [] →
      ∀ p ∈ (ContainmentProblem.build inputs.graph inputs.instanceSpec).toOption,
        ProblemProvable inputs p)

instance SourcesProven.instDecidable (inputs : PlanInputs) : Decidable (SourcesProven inputs) :=
  inferInstanceAs (Decidable (_ ∧ _))

instance ProblemProvable.instDecidable (inputs : PlanInputs) (p : ContainmentProblem) :
    Decidable (ProblemProvable inputs p) :=
  inferInstanceAs (Decidable (_ ∧ _))

instance PlanInputs.Provable.instDecidable (inputs : PlanInputs) : Decidable inputs.Provable :=
  have _ : Decidable (∀ p ∈ (ContainmentProblem.build inputs.graph inputs.instanceSpec).toOption,
      ProblemProvable inputs p) := Option.decidableForallMem _
  inferInstanceAs (Decidable (_ ∧ _))

/-- A claim of containment, minimal or not. -/
def ContainmentPlan.ClaimsContainment (plan : ContainmentPlan) : Prop :=
  plan.claim = .provenContainment ∨ plan.claim = .provenFeasibleNotMinimal

instance ContainmentPlan.ClaimsContainment.instDecidable (plan : ContainmentPlan) :
    Decidable plan.ClaimsContainment :=
  inferInstanceAs (Decidable (_ ∨ _))

section Claimed

variable {inputs : PlanInputs} {start plan : ContainmentPlan} {p : ContainmentProblem}

/-- A solved plan claims containment exactly when its problem is provable. -/
theorem planSolved_claim_iff (hp : p.WellFormed) (h : planSolved inputs p start = .ok plan) :
    plan.ClaimsContainment ↔ ProblemProvable inputs p := by
  unfold ContainmentPlan.ClaimsContainment ProblemProvable
  rcases planSolved_spec hp h with ⟨hst, hfound⟩ | ⟨hst, -, -, hc⟩ | ⟨hst, -, -, hc⟩
  · have hproven := hfound.proven
    have hfeasible := hfound.feasible
    rw [solvedStart_uncontainable] at hproven hfeasible
    rw [hproven, hfeasible]
    constructor
    · rintro (⟨hcur, hreq, -⟩ | ⟨hcur, hreq, -⟩)
      · exact ⟨hst, hcur, hreq⟩
      · exact ⟨hst, hcur, hreq⟩
    · rintro ⟨-, hcur, hreq⟩
      by_cases hopt : (solutionOf inputs p).status = .provenOptimal
      · exact Or.inl ⟨hcur, hreq, hopt⟩
      · exact Or.inr ⟨hcur, hreq, hopt⟩
  · rw [hc, hst]
    simp
  · rw [hc, hst]
    simp

/-- A plan claims containment exactly when the inputs of its way prove it. -/
theorem Way.claim_iff {problem : Option ContainmentProblem} (h : Way inputs start plan problem) :
    plan.ClaimsContainment ↔ inputs.Provable := by
  unfold PlanInputs.Provable
  cases h with
  | noFailures hsources hmissing hplan =>
    obtain ⟨-, -, hclaim, -⟩ := planNoFailures_spec hplan
    simp [ContainmentPlan.ClaimsContainment, hclaim, hsources, hmissing]
  | noKnownSource hsources hmissing hplan =>
    obtain ⟨-, -, hclaim⟩ := planNoKnownSource_spec hplan
    simp [ContainmentPlan.ClaimsContainment, hclaim, hsources, hmissing]
  | noObligations hsources hobl hplan =>
    obtain ⟨-, -, -, -, -, hclaim⟩ := planNoObligations_spec hplan
    rcases hclaim with ⟨hproven, hclaim⟩ | ⟨hnot, hclaim⟩
    · simp [ContainmentPlan.ClaimsContainment, hclaim, hsources, hobl, hproven]
    · simp [ContainmentPlan.ClaimsContainment, hclaim, hsources, hobl, hnot]
  | solved hsources hobl hbuild hplan =>
    rw [planSolved_claim_iff (build_wellFormed hbuild) hplan]
    simp [hsources, hobl, hbuild, Except.toOption]

end Claimed

/-- A computed plan claims containment exactly when its inputs prove it. -/
theorem computePlan_claim_iff {inputs : PlanInputs} {authority : AuthorityVector}
    {generation : PlanGeneration} {c : PlanComputation}
    (h : computePlan inputs authority generation = .ok c) :
    c.plan.ClaimsContainment ↔ inputs.Provable := by
  obtain ⟨plan, hsealed, hway⟩ := computePlan_way h
  rw [← hway.claim_iff, hsealed]
  exact Iff.rfl

/-- A plan makes a claim, or says that it makes none. -/
def ContainmentPlan.Settled (plan : ContainmentPlan) : Prop :=
  plan.claim ≠ .invalid ∧ plan.claim ≠ .unsupported

/-- The plan of a found set is settled. -/
theorem planFound_settled {inputs : PlanInputs} {start plan : ContainmentPlan}
    {p : ContainmentProblem} {solution : CutSolution}
    (h : planFound inputs p solution start = .ok plan) : plan.Settled := by
  rw [planFound, bind_eq_ok] at h
  obtain ⟨b, -, h⟩ := h
  rw [pure_eq_ok] at h
  have hclaim : ∀ optimal q, (foundClaim inputs p optimal q).Settled := by
    intro optimal q
    unfold foundClaim
    simp only
    split
    · split <;> exact ⟨by simp [addReason], by simp [addReason]⟩
    split
    · exact ⟨by simp [addReason], by simp [addReason]⟩
    split <;> exact ⟨by simp, by simp⟩
  have hnecessity : ∀ members q, (addNecessity inputs p members q).claim = q.claim := by
    intro members q
    unfold addNecessity
    split <;> rfl
  rw [← h, ContainmentPlan.Settled, hnecessity]
  exact hclaim _ _

/-- A computed plan is settled. -/
theorem computePlan_settled {inputs : PlanInputs} {authority : AuthorityVector}
    {generation : PlanGeneration} {c : PlanComputation}
    (h : computePlan inputs authority generation = .ok c) : c.plan.Settled := by
  obtain ⟨plan, hsealed, hway⟩ := computePlan_way h
  rw [hsealed]
  change plan.Settled
  unfold ContainmentPlan.Settled
  generalize c.problem = problem at hway
  cases hway with
  | noFailures _ _ hplan => simp [(planNoFailures_spec hplan).2.2.1]
  | noKnownSource _ _ hplan => simp [(planNoKnownSource_spec hplan).2.2]
  | noObligations _ _ hplan =>
    rcases (planNoObligations_spec hplan).2.2.2.2.2 with ⟨-, hclaim⟩ | ⟨-, hclaim⟩ <;> simp [hclaim]
  | solved _ _ hbuild hplan =>
    have hp := build_wellFormed hbuild
    rcases planSolved_spec hp hplan with ⟨hst, -⟩ | ⟨-, -, -, hclaim⟩ | ⟨-, -, -, hclaim⟩
    · rw [planSolved_of_found hst] at hplan
      exact planFound_settled hplan
    · simp [hclaim]
    · simp [hclaim]

/-! ## Releasable plans -/

/-- Something has to be contained: the policy wants the sources in the boundary, or there are no
obligations and a source that can be contained, or a failure reaches an obligation. -/
def PlanInputs.NeedsContainment (inputs : PlanInputs) : Prop :=
  inputs.policy.require_failure_source_inclusion = true ∨
    (inputs.obligations = [] ∧ ∃ r ∈ inputs.sources, sourceContainable inputs r = true) ∨
    ∃ p ∈ (ContainmentProblem.build inputs.graph inputs.instanceSpec).toOption,
      shortestResidualPath p [] ≠ []

instance PlanInputs.NeedsContainment.instDecidable (inputs : PlanInputs) :
    Decidable inputs.NeedsContainment :=
  have _ : Decidable (∃ p ∈ (ContainmentProblem.build inputs.graph inputs.instanceSpec).toOption,
      shortestResidualPath p [] ≠ []) := Option.decidableExistsMem _
  inferInstanceAs (Decidable (_ ∨ _))

section Released

variable {inputs : PlanInputs} {start plan : ContainmentPlan} {p : ContainmentProblem}

/-- A created boundary is empty exactly when it was created from no members. -/
theorem boundary_members_eq_nil {generation : BoundaryGeneration} {members : List BoundaryMember}
    {b : ContainmentBoundary} (h : ContainmentBoundary.create generation members = .ok b) :
    b.members = [] ↔ members = [] := by
  obtain ⟨-, hsort, -⟩ := ContainmentBoundary.create_eq_ok h
  rw [hsort, ← List.length_eq_zero_iff, length_sortBy, List.length_eq_zero_iff]

/-- A solved plan without members has a failure to contain only when no source must be a member and
no failure reaches an obligation. -/
theorem planSolved_releasable (hbuild : ContainmentProblem.build inputs.graph inputs.instanceSpec = .ok p)
    (hsources : inputs.sources ≠ []) (h : planSolved inputs p start = .ok plan)
    (hclaim : plan.claim = .provenContainment) (hempty : plan.boundary.members = []) :
    inputs.policy.require_failure_source_inclusion = false ∧ shortestResidualPath p [] = [] := by
  have hp := build_wellFormed hbuild
  rcases planSolved_spec hp h with ⟨hst, hfound⟩ | ⟨-, -, -, hc⟩ | ⟨-, -, -, hc⟩
  · obtain ⟨hacc, -⟩ := planMembers_spec hp (solve_found hp hst)
    obtain ⟨-, hreq, -⟩ := hfound.proven.mp hclaim
    rw [solvedStart_uncontainable, hp.uncontainable_eq, List.filter_eq_nil_iff] at hreq
    have hnone : planMembers p (solutionOf inputs p).members = [] := by
      have := (boundary_members_eq_nil hfound.boundary).mp hempty
      simpa using this
    rw [show (solve p inputs.budget inputs.policy.exact_instance_node_limit.toNat).members =
      (solutionOf inputs p).members from rfl, hnone] at hacc
    refine ⟨?_, ((separates_iff hp).mp hacc.separates).1⟩
    by_contra hon
    rw [Bool.not_eq_false] at hon
    -- every source would have to be a member
    obtain ⟨r, hr⟩ := List.exists_mem_of_ne_nil _ hsources
    obtain ⟨hpresent, i, hi⟩ := PlanInputs.mem_sources.mp hr
    have hmem := (mem_built_sources hbuild).mpr ⟨r, hpresent, hi⟩
    have hcontainable : p.isContainable i = true := by simpa using hreq hon i hmem
    have hrequired : p.require_source_inclusion = true := (build_copied hbuild).2.1.trans hon
    exact absurd (hacc.sources hrequired i hmem hcontainable) (by simp)
  · rw [hc] at hclaim
    exact absurd hclaim (by simp)
  · rw [hc] at hclaim
    exact absurd hclaim (by simp)

end Released

/-- A plan that can be released while something has to be contained was computed with no resource
Present. -/
theorem present_of_releasable {inputs : PlanInputs} {authority : AuthorityVector}
    {generation : PlanGeneration} {c : PlanComputation}
    (h : computePlan inputs authority generation = .ok c)
    (hreleasable : c.plan.isReleasable = true) (hneeds : inputs.NeedsContainment) :
    inputs.evidence.presentResources = [] := by
  obtain ⟨plan, hsealed, hway⟩ := computePlan_way h
  rw [hsealed] at hreleasable
  replace hreleasable : (plan.claim == .provenContainment && plan.boundary.members.isEmpty) = true :=
    hreleasable
  rw [Bool.and_eq_true, beq_iff_eq, List.isEmpty_iff] at hreleasable
  obtain ⟨hclaim, hempty⟩ := hreleasable
  rw [List.eq_nil_iff_forall_not_mem]
  intro r hr
  generalize c.problem = problem at hway
  cases hway with
  | noFailures hsources hmissing hplan =>
    cases hf : inputs.topology.find r with
    | none => exact absurd (PlanInputs.mem_missingSources.mpr ⟨hr, hf⟩) (by simp [hmissing])
    | some i => exact absurd (PlanInputs.mem_sources.mpr ⟨hr, i, hf⟩) (by simp [hsources])
  | noKnownSource hsources hmissing hplan =>
    rw [(planNoKnownSource_spec hplan).2.2] at hclaim
    exact absurd hclaim (by simp)
  | noObligations hsources hobl hplan =>
    obtain ⟨-, hboundary, -, -, -, ⟨hproven, -⟩ | ⟨-, hind⟩⟩ := planNoObligations_spec hplan
    · have hnone : ∀ id ∈ inputs.sources, ¬ sourceContainable inputs id = true := by
        have := (boundary_members_eq_nil hboundary).mp hempty
        simpa only [sourceMembers, List.map_eq_nil_iff, List.filter_eq_nil_iff] using this
      obtain ⟨id, hid⟩ := List.exists_mem_of_ne_nil _ hsources
      rcases hneeds with hreq | ⟨-, id', hid', hcontainable⟩ | ⟨p, hp, -⟩
      · exact hnone id hid (hproven.2 hreq id hid)
      · exact hnone id' hid' hcontainable
      · obtain ⟨-, ho, -⟩ := build_eq_ok (mem_toOption.mp hp)
        exact ho hobl
    · rw [hind] at hclaim
      exact absurd hclaim (by simp)
  | solved hsources hobl hbuild hplan =>
    obtain ⟨hreq, hresidual⟩ := planSolved_releasable hbuild hsources hplan hclaim hempty
    rcases hneeds with hreq' | ⟨hnone, -⟩ | ⟨p', hp', hpath⟩
    · exact absurd (hreq.symm.trans hreq') (by simp)
    · exact hobl hnone
    · obtain rfl := Except.ok.inj (hbuild.symm.trans (mem_toOption.mp hp'))
      exact hpath hresidual

end Fcfn
