import Fcfn.Engine.PlanFacts

/-!
# Plans that can be decoded again

The decoder of a plan is stricter than the planner: it asks for a boundary that was created, for
lists within the bounds of a problem and for canonical identities. `PlanInputs.Recoverable` says on
the planner's inputs when the plan it computes meets that, way by way
(`Way.decodable_iff`). -/

namespace Fcfn

open Words Sorted ContainmentProblem ContainmentPlan

/-- The inputs of which the computed plan can be decoded again. -/
structure PlanInputs.Recoverable (inputs : PlanInputs) : Prop where
  sources_le : inputs.sources.length ≤ kMaxFailureSources
  obligations_le : inputs.obligations.length ≤ kMaxProtectedObligations
  /-- The explanation names the first resources that are not in the topology. -/
  missing_canonical : inputs.sources = [] →
    ∀ id ∈ inputs.missingSources.take kMaxExplanationItems, isValidResourceId id = true
  /-- A solved problem has a boundary when the solver finds a set. -/
  found : inputs.sources ≠ [] → inputs.obligations ≠ [] →
    ∀ p ∈ (ContainmentProblem.build inputs.graph inputs.instanceSpec).toOption,
      (solutionOf inputs p).status = .provenOptimal ∨
        (solutionOf inputs p).status = .feasibleNotProvenOptimal

/-- What the planner's plans satisfy of the decoder's rules on every way that creates a boundary. -/
structure ContainmentPlan.Bounded (plan : ContainmentPlan) : Prop where
  created : plan.boundary.generation ≠ 0
  members : ∀ member ∈ plan.boundary.members, ContainmentBoundary.Canonical member
  sources : ∀ id ∈ plan.failure_sources, isValidResourceId id = true
  obligations : ∀ id ∈ plan.protected_obligations, isValidResourceId id = true
  uncontainable : plan.uncontainable_sources.length ≤ plan.failure_sources.length ∧
    ∀ id ∈ plan.uncontainable_sources, isValidResourceId id = true
  proven_necessary : IdsWithin kMaxBoundaryMembers plan.proven_necessary_members
  indeterminate : IdsWithin kMaxBoundaryMembers plan.indeterminate_necessity
  path : plan.infeasibility.path = []

/-- Which bounded plans can be decoded again once they are sealed. -/
theorem ContainmentPlan.Bounded.decodable_iff {plan : ContainmentPlan} (h : plan.Bounded) :
    plan.sealed.Decodable ↔ plan.failure_sources.length ≤ kMaxFailureSources ∧
      plan.protected_obligations.length ≤ kMaxProtectedObligations ∧
      plan.explanation.Canonical := by
  constructor
  · intro hd
    exact ⟨hd.failure_sources.length_le, hd.protected_obligations.length_le, hd.explanation⟩
  · rintro ⟨hsources, hobligations, hexplanation⟩
    have hpath : IdsWithin kMaxCutCertificatePathNodes plan.infeasibility.path := by
      rw [h.path]
      exact ⟨by simp, by simp⟩
    exact ⟨h.created, h.members, ⟨hsources, h.sources⟩, ⟨hobligations, h.obligations⟩,
      ⟨h.uncontainable.1.trans hsources, h.uncontainable.2⟩, h.proven_necessary, h.indeterminate,
      hpath, hexplanation, rfl⟩

section Inputs

variable {inputs : PlanInputs}

/-- The identities of a topology's nodes are canonical. -/
theorem canonical_of_find {t : Topology} {r : ResourceId} {i : NodeIndex} (h : t.find r = some i) :
    isValidResourceId r = true := by
  rw [← find_id h]
  exact (t.node_valid (find_lt h)).canonical

/-- The sources are canonical. -/
theorem canonical_of_mem_sources {r : ResourceId} (h : r ∈ inputs.sources) :
    isValidResourceId r = true := by
  obtain ⟨-, i, hi⟩ := PlanInputs.mem_sources.mp h
  exact canonical_of_find hi

/-- The obligations are canonical. -/
theorem canonical_of_mem_obligations {r : ResourceId} (h : r ∈ inputs.obligations) :
    isValidResourceId r = true := by
  obtain ⟨i, hi, -, rfl⟩ := PlanInputs.mem_obligations.mp h
  exact (inputs.topology.node_valid hi).canonical

/-- The nodes of a problem have canonical identities. -/
theorem canonical_resourceId (p : ContainmentProblem) {i : NodeIndex} (hi : i < p.nodeCount) :
    isValidResourceId (p.resourceId i) = true :=
  (p.graph.topology.node_valid hi).canonical

end Inputs

section Ways

variable {inputs : PlanInputs} {authority : AuthorityVector} {generation : PlanGeneration}
  {plan : ContainmentPlan}

/-- A boundary without members. -/
theorem bounded_of_empty (hcreate : ContainmentBoundary.create inputs.boundary_generation [] =
      .ok plan.boundary)
    (horigin : SameOrigin (inputs.initialPlan authority generation) plan)
    (hlists : plan.uncontainable_sources = [] ∧ plan.proven_necessary_members = [] ∧
      plan.indeterminate_necessity = [] ∧ plan.infeasibility.path = []) : plan.Bounded := by
  obtain ⟨hgeneration, hmembers, hcreated⟩ := ContainmentBoundary.create_eq_ok hcreate
  obtain ⟨huncontainable, hnecessary, hindeterminate, hpath⟩ := hlists
  have hnone : plan.boundary.members = [] := by
    rw [hmembers]
    exact List.eq_nil_of_length_eq_zero (by rw [length_sortBy]; rfl)
  refine ⟨hcreated.generation_ne_zero, by simp [hnone], ?_, ?_, ?_, ?_, ?_, hpath⟩
  · rw [horigin.failure_sources]
    exact fun id => canonical_of_mem_sources
  · rw [horigin.protected_obligations]
    exact fun id => canonical_of_mem_obligations
  · rw [huncontainable]
    exact ⟨by simp, by simp⟩
  · rw [hnecessary]
    exact ⟨by simp, by simp⟩
  · rw [hindeterminate]
    exact ⟨by simp, by simp⟩

/-- Without failures the plan is bounded and its explanation names nothing. -/
theorem planNoFailures_bounded
    (h : planNoFailures inputs (inputs.initialPlan authority generation) = .ok plan) :
    plan.Bounded ∧ plan.explanation.Canonical := by
  obtain ⟨horigin, hcreate, -⟩ := planNoFailures_spec h
  rw [planNoFailures, bind_eq_ok] at h
  obtain ⟨b, -, h⟩ := h
  rw [pure_eq_ok] at h
  subst h
  refine ⟨bounded_of_empty hcreate horigin ⟨rfl, rfl, rfl, rfl⟩, ?_⟩
  simp only [addReason, Explanation.canonical_add]
  exact Explanation.canonical_empty

/-- Without a known source the plan is bounded, and its explanation names the first resources that
are not in the topology. -/
theorem planNoKnownSource_bounded
    (h : planNoKnownSource inputs (inputs.initialPlan authority generation) = .ok plan) :
    plan.Bounded ∧ (plan.explanation.Canonical ↔
      ∀ id ∈ inputs.missingSources.take kMaxExplanationItems, isValidResourceId id = true) := by
  obtain ⟨horigin, hcreate, -⟩ := planNoKnownSource_spec h
  rw [planNoKnownSource, bind_eq_ok] at h
  obtain ⟨b, -, h⟩ := h
  rw [pure_eq_ok] at h
  subst h
  refine ⟨bounded_of_empty hcreate horigin ⟨rfl, rfl, rfl, rfl⟩, ?_⟩
  have hnone : Explanation.empty.items.length = 0 := rfl
  simp only [addSubjects, PlanInputs.initialPlan, Explanation.canonical_addResources, hnone,
    Nat.sub_zero, Explanation.canonical_empty, true_and]

/-- A list of canonical resources can be named. -/
theorem canonical_addSubjects {start : ContainmentPlan} {code : ReasonCode}
    {subjects : List ResourceId} {text : String} (h : start.explanation.Canonical)
    (hsubjects : ∀ id ∈ subjects, isValidResourceId id = true) :
    (addSubjects start code subjects text).explanation.Canonical :=
  (Explanation.canonical_addResources _ _ _ _).mpr
    ⟨h, fun id hid => hsubjects id (List.mem_of_mem_take hid)⟩

/-- Without obligations the plan is bounded and its explanation names sources. -/
theorem planNoObligations_bounded
    (h : planNoObligations inputs (inputs.initialPlan authority generation) = .ok plan) :
    plan.Bounded ∧ plan.explanation.Canonical := by
  obtain ⟨horigin, hcreate, -, -, huncontainable, -⟩ := planNoObligations_spec h
  obtain ⟨-, hmembers, hcreated⟩ := ContainmentBoundary.create_eq_ok hcreate
  have hfiltered : ∀ id ∈ inputs.sources.filter fun id => !sourceContainable inputs id,
      isValidResourceId id = true :=
    fun id hid => canonical_of_mem_sources (List.mem_of_mem_filter hid)
  -- no branch sets these lists; they differ in the explanation alone
  have hlists : plan.proven_necessary_members = [] ∧ plan.indeterminate_necessity = [] ∧
      plan.infeasibility.path = [] ∧ plan.explanation.Canonical := by
    rw [planNoObligations] at h
    simp only [bind_eq_ok] at h
    obtain ⟨b, -, h⟩ := h
    split at h
    · rw [pure_eq_ok] at h
      subst h
      refine ⟨rfl, rfl, rfl, ?_⟩
      simp only [addReason, Explanation.canonical_add]
      exact Explanation.canonical_empty
    · split at h
      · rw [pure_eq_ok] at h
        subst h
        refine ⟨rfl, rfl, rfl, (Explanation.canonical_add _ _ _).mpr (canonical_addSubjects ?_
          hfiltered)⟩
        simp only [addReason, Explanation.canonical_add]
        exact Explanation.canonical_empty
      · rw [pure_eq_ok] at h
        subst h
        refine ⟨rfl, rfl, rfl, canonical_addSubjects ?_ hfiltered⟩
        simp only [addReason, Explanation.canonical_add]
        exact Explanation.canonical_empty
  obtain ⟨hnecessary, hindeterminate, hpath, hexplanation⟩ := hlists
  refine ⟨⟨hcreated.generation_ne_zero, fun member hm => ?_, ?_, ?_, ?_, ?_, ?_, hpath⟩,
    hexplanation⟩
  -- every member is a source that can be contained
  · rw [hmembers, mem_sortBy] at hm
    obtain ⟨id, hid, rfl⟩ := List.mem_map.mp hm
    exact ⟨canonical_of_mem_sources (List.mem_of_mem_filter hid), by simp [sourceMember]⟩
  · rw [horigin.failure_sources]
    exact fun id => canonical_of_mem_sources
  · rw [horigin.protected_obligations]
    exact fun id => canonical_of_mem_obligations
  · rw [huncontainable, horigin.failure_sources]
    exact ⟨List.length_filter_le _ _, hfiltered⟩
  · rw [hnecessary]
    exact ⟨by simp, by simp⟩
  · rw [hindeterminate]
    exact ⟨by simp, by simp⟩

end Ways

section Solved

variable {inputs : PlanInputs} {p : ContainmentProblem} {start plan : ContainmentPlan}

/-- The sources of a built problem that are not containable name sources. -/
theorem uncontainable_sources_spec
    (h : ContainmentProblem.build inputs.graph inputs.instanceSpec = .ok p) :
    (p.uncontainable_sources.map p.resourceId).length ≤ inputs.sources.length ∧
      ∀ id ∈ p.uncontainable_sources.map p.resourceId, isValidResourceId id = true := by
  have hp := build_wellFormed h
  have hlength : p.sources.length = inputs.sources.length := by
    have hmap := congrArg List.length (build_indices h).1
    simpa [PlanInputs.instanceSpec] using hmap.symm
  rw [hp.uncontainable_eq, List.length_map]
  refine ⟨hlength ▸ List.length_filter_le _ _, fun id hid => ?_⟩
  obtain ⟨i, hi, rfl⟩ := List.mem_map.mp hid
  exact canonical_resourceId p (hp.sources_lt i (List.mem_of_mem_filter hi))

/-- The notes, the counters and the reasons of a found set name sources only. -/
theorem solvedStart_explanation
    (h : ContainmentProblem.build inputs.graph inputs.instanceSpec = .ok p)
    (hstart : start.explanation.Canonical) : (solvedStart inputs p start).explanation.Canonical := by
  have hnoted : (notedPlan inputs p start).explanation.Canonical := by
    simp only [notedPlan]
    split <;> split <;> simpa using hstart
  simp only [solvedStart, countedPlan]
  refine canonical_addSubjects ?_ (uncontainable_sources_spec h).2
  split
  · exact (Explanation.canonical_add _ _ _).mpr hnoted
  · exact hnoted

theorem foundReasons_explanation (solution : CutSolution) {x : Explanation} (h : x.Canonical) :
    (foundReasons solution x).Canonical := by
  simp only [foundReasons]
  split <;> split <;> simpa using h

theorem foundClaim_explanation (optimal : Bool) (h : start.explanation.Canonical) :
    (foundClaim inputs p optimal start).explanation.Canonical := by
  simp only [foundClaim]
  split
  · split <;> exact (Explanation.canonical_add _ _ _).mpr h
  split
  · exact (Explanation.canonical_add _ _ _).mpr h
  split
  · exact h
  · exact h

/-- The explanation of a found set names sources only. -/
theorem planFound_explanation {solution : CutSolution}
    (h : planFound inputs p solution start = .ok plan) (hstart : start.explanation.Canonical) :
    plan.explanation.Canonical := by
  rw [planFound, bind_eq_ok] at h
  obtain ⟨b, -, h⟩ := h
  rw [pure_eq_ok] at h
  have hkeep : ∀ q : ContainmentPlan,
      (addNecessity inputs p (planMembers p solution.members) q).explanation = q.explanation := by
    intro q
    unfold addNecessity
    split <;> rfl
  rw [← h, hkeep]
  exact foundClaim_explanation _ (foundReasons_explanation _ hstart)

/-- A necessity list of a found set is within the decoder's bounds. -/
theorem necessity_within {members : List NodeIndex} {ids : List ResourceId}
    (hle : members.length ≤ kMaxBoundaryMembers) (hlt : ∀ x ∈ members, x < p.nodeCount)
    (h : ids = [] ∨ NecessityOf p members ids) : IdsWithin kMaxBoundaryMembers ids := by
  rcases h with rfl | h
  · exact ⟨by simp, by simp⟩
  · refine ⟨h.length_le.trans hle, fun id hid => ?_⟩
    obtain ⟨x, hx, rfl⟩ := h.named id hid
    exact canonical_resourceId p (hlt x hx)

/-- The plan of a found set is bounded. -/
theorem planFound_bounded {authority : AuthorityVector} {generation : PlanGeneration}
    (hbuild : ContainmentProblem.build inputs.graph inputs.instanceSpec = .ok p)
    (hst : (solutionOf inputs p).status = .provenOptimal ∨
      (solutionOf inputs p).status = .feasibleNotProvenOptimal)
    (h : planSolved inputs p (inputs.initialPlan authority generation) = .ok plan) :
    plan.Bounded ∧ plan.explanation.Canonical := by
  have hp := build_wellFormed hbuild
  rw [planSolved_of_found hst] at h
  have hfound := planFound_spec h
  obtain ⟨hstart, -, huncontainable, hnecessary, hindeterminate, hinfeasibility⟩ :=
    @countedPlan_spec inputs (inputs.initialPlan authority generation) p (solutionOf inputs p)
  have horigin := SameOrigin.trans hstart hfound.origin
  obtain ⟨-, hmembers, hcreated⟩ := ContainmentBoundary.create_eq_ok hfound.boundary
  have hacc := (planMembers_spec hp (solve_found hp hst)).1
  -- the boundary was created, so the set is within its bound
  have hle : (planMembers p (solutionOf inputs p).members).length ≤ kMaxBoundaryMembers := by
    have hlength := hcreated.length_le
    rwa [hmembers, length_sortBy, List.length_map] at hlength
  refine ⟨⟨hcreated.generation_ne_zero, fun member hm => ?_, ?_, ?_, ?_, ?_, ?_, ?_⟩, ?_⟩
  · rw [hmembers, mem_sortBy] at hm
    obtain ⟨x, hx, rfl⟩ := List.mem_map.mp hm
    refine ⟨?_, fun step hstep => ?_⟩
    · rw [(boundaryMember_resource x).1]
      exact canonical_resourceId p (hacc.lt x hx)
    · obtain ⟨i, hi, rfl⟩ := boundaryMember_witness hp x hstep
      exact canonical_resourceId p hi
  · rw [horigin.failure_sources]
    exact fun id => canonical_of_mem_sources
  · rw [horigin.protected_obligations]
    exact fun id => canonical_of_mem_obligations
  · rw [hfound.uncontainable_sources, horigin.failure_sources]
    rw [solvedStart, huncontainable]
    exact uncontainable_sources_spec hbuild
  · refine necessity_within hle hacc.lt (hfound.proven_necessary.imp_left fun h => h.trans ?_)
    exact hnecessary
  · refine necessity_within hle hacc.lt (hfound.indeterminate.imp_left fun h => h.trans ?_)
    exact hindeterminate
  · rw [hfound.infeasibility, solvedStart, hinfeasibility]
    rfl
  · exact planFound_explanation h (solvedStart_explanation hbuild Explanation.canonical_empty)

end Solved

/-- A plan whose problem is solved without a set has no boundary. -/
theorem planSolved_unset {inputs : PlanInputs} {p : ContainmentProblem}
    {start plan : ContainmentPlan} (hp : p.WellFormed) (hstart : start.boundary = .unset)
    (hst : ¬ ((solutionOf inputs p).status = .provenOptimal ∨
      (solutionOf inputs p).status = .feasibleNotProvenOptimal))
    (h : planSolved inputs p start = .ok plan) : plan.boundary.generation = 0 := by
  rcases planSolved_spec hp h with ⟨hfound, -⟩ | ⟨-, -, hboundary, -⟩ | ⟨-, -, hboundary, -⟩
  · exact absurd hfound hst
  · rw [hboundary, hstart]
    rfl
  · rw [hboundary, hstart]
    rfl

/-- A computed plan is bounded and within the decoder's bounds exactly when the inputs say so, or it
has no boundary and they do not. -/
theorem Way.bounded {inputs : PlanInputs} {authority : AuthorityVector}
    {generation : PlanGeneration} {plan : ContainmentPlan} {problem : Option ContainmentProblem}
    (h : Way inputs (inputs.initialPlan authority generation) plan problem) :
    (plan.Bounded ∧ (inputs.Recoverable ↔ inputs.sources.length ≤ kMaxFailureSources ∧
        inputs.obligations.length ≤ kMaxProtectedObligations ∧ plan.explanation.Canonical)) ∨
      (plan.boundary.generation = 0 ∧ ¬ inputs.Recoverable) := by
  cases h with
  | noFailures hsources hmissing hplan =>
    obtain ⟨hbounded, hcanonical⟩ := planNoFailures_bounded hplan
    refine Or.inl ⟨hbounded, fun h => ⟨h.sources_le, h.obligations_le, hcanonical⟩, ?_⟩
    rintro ⟨hsources_le, hobligations_le, -⟩
    refine ⟨hsources_le, hobligations_le, fun _ => ?_, fun hne => absurd hsources hne⟩
    simp [hmissing]
  | noKnownSource hsources _ hplan =>
    obtain ⟨hbounded, hcanonical⟩ := planNoKnownSource_bounded hplan
    rw [hcanonical]
    refine Or.inl ⟨hbounded, fun h => ⟨h.sources_le, h.obligations_le,
      h.missing_canonical hsources⟩, ?_⟩
    rintro ⟨hsources_le, hobligations_le, hmissing⟩
    exact ⟨hsources_le, hobligations_le, fun _ => hmissing, fun hne => absurd hsources hne⟩
  | noObligations hsources hobligations hplan =>
    obtain ⟨hbounded, hcanonical⟩ := planNoObligations_bounded hplan
    refine Or.inl ⟨hbounded, fun h => ⟨h.sources_le, h.obligations_le, hcanonical⟩, ?_⟩
    rintro ⟨hsources_le, hobligations_le, -⟩
    exact ⟨hsources_le, hobligations_le, fun hnil => absurd hnil hsources,
      fun _ hne => absurd hobligations hne⟩
  | @solved p hsources hobligations hbuild hplan =>
    -- a plan has a boundary exactly when the solver has found a set
    by_cases hst : (solutionOf inputs p).status = .provenOptimal ∨
        (solutionOf inputs p).status = .feasibleNotProvenOptimal
    · obtain ⟨hbounded, hcanonical⟩ := planFound_bounded hbuild hst hplan
      refine Or.inl ⟨hbounded, fun h => ⟨h.sources_le, h.obligations_le, hcanonical⟩, ?_⟩
      rintro ⟨hsources_le, hobligations_le, -⟩
      refine ⟨hsources_le, hobligations_le, fun hnil => absurd hnil hsources, fun _ _ q hq => ?_⟩
      rw [mem_toOption, hbuild] at hq
      exact Except.ok.inj hq ▸ hst
    · refine Or.inr ⟨planSolved_unset (build_wellFormed hbuild) rfl hst hplan, fun h => ?_⟩
      exact hst (h.found hsources hobligations p (mem_toOption.mpr hbuild))

/-- A computed plan, with notes that name nothing more, can be decoded again once it is sealed exactly
when its inputs say so. -/
theorem Way.decodable_iff {inputs : PlanInputs} {authority : AuthorityVector}
    {generation : PlanGeneration} {plan final : ContainmentPlan}
    {problem : Option ContainmentProblem}
    (h : Way inputs (inputs.initialPlan authority generation) plan problem)
    (hsame : SameOrigin plan final) (hboundary : final.boundary = plan.boundary)
    (hbounded : plan.Bounded → final.Bounded)
    (hexplanation : final.explanation.Canonical ↔ plan.explanation.Canonical) :
    final.sealed.Decodable ↔ inputs.Recoverable := by
  have horigin := h.origin.1.trans hsame
  rcases h.bounded with ⟨hplan, hrecoverable⟩ | ⟨hunset, hnot⟩
  · have hsources : final.failure_sources = inputs.sources := horigin.failure_sources
    have hobligations : final.protected_obligations = inputs.obligations :=
      horigin.protected_obligations
    rw [(hbounded hplan).decodable_iff, hrecoverable, hexplanation, hsources, hobligations]
  · refine iff_of_false (fun hd => hd.boundary_created ?_) hnot
    rw [sealed_boundary, hboundary, hunset]

end Fcfn
