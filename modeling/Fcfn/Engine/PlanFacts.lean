import Fcfn.Engine.Certificates
import Fcfn.Engine.Planner

/-!
# What the planner returns

One fact for each part of the planner: what the inputs resolve to in the topology, what the built
problem is, what minimality restoration keeps, and which fields each way through `computePlan`
sets. `computePlan_way` says which way a plan was computed. -/

namespace Fcfn

open Words Sorted ContainmentProblem

/-! ## Minimality restoration -/

section Restore

variable {p : ContainmentProblem} {keep : NodeIndex → Bool}

/-- Dropping members one by one, each time with the verifier's consent, keeps an accepted set. -/
theorem restoreMinimality_spec (hp : p.WellFormed) (kept rest : List NodeIndex)
    (hacc : p.Accepts (kept ++ rest)) :
    p.Accepts (restoreMinimality p keep kept rest) ∧
      (restoreMinimality p keep kept rest).Sublist (kept ++ rest) := by
  induction rest generalizing kept with
  | nil =>
    rw [List.append_nil] at hacc ⊢
    exact ⟨hacc, List.Sublist.refl _⟩
  | cons candidate rest ih =>
    have hassoc : kept ++ candidate :: rest = (kept ++ [candidate]) ++ rest := by simp
    rw [restoreMinimality]
    split
    · rw [hassoc]
      exact ih _ (hassoc ▸ hacc)
    · -- The members are distinct, so the trial set is the set without the candidate.
      have htrial : (kept ++ candidate :: rest).filter (fun x => decide (x ≠ candidate)) =
          kept ++ rest := by
        have hnd := hacc.nodup
        rw [List.nodup_append, List.nodup_cons] at hnd
        obtain ⟨-, ⟨hrest, -⟩, hkept⟩ := hnd
        rw [List.filter_append, List.filter_cons_of_neg (by simp), List.filter_eq_self.mpr,
          List.filter_eq_self.mpr]
        · intro x hx
          simpa using fun heq : x = candidate => hrest (heq ▸ hx)
        · intro x hx
          simpa using hkept x hx candidate (by simp)
      simp only [htrial]
      split
      · rename_i o hok
        obtain ⟨hacc', hsub⟩ := ih kept ((verifyCut_eq_ok_iff hp).mp hok).1
        exact ⟨hacc', hsub.trans ((List.sublist_cons_self _ _).append_left _)⟩
      · rw [hassoc]
        exact ih _ (hassoc ▸ hacc)

/-- The needed members of an accepted set are an accepted part of it. -/
theorem planMembers_spec (hp : p.WellFormed) {members : List NodeIndex}
    (hacc : p.Accepts members) :
    p.Accepts (planMembers p members) ∧ ∀ x ∈ planMembers p members, x ∈ members := by
  have h := @restoreMinimality_spec p (fun node => p.isSource node && p.require_source_inclusion)
    hp [] (sortBy id members) (by rw [List.nil_append]; exact hacc.perm perm_sortBy.symm)
  refine ⟨h.1, fun x hx => ?_⟩
  have := h.2.subset hx
  rw [List.nil_append] at this
  exact mem_sortBy.mp this

end Restore

/-! ## The solver's answer -/

/-- A reported set is accepted with the reported objective, whichever solver ran. -/
theorem solve_found {p : ContainmentProblem} (hp : p.WellFormed) {budget : SolveBudget} {limit : ℕ}
    (h : (solve p budget limit).status = .provenOptimal ∨
      (solve p budget limit).status = .feasibleNotProvenOptimal) :
    p.Accepts (solve p budget limit).members := by
  rw [solve] at h ⊢
  split
  · rename_i hle
    rw [if_pos hle] at h
    exact ((solveExact_spec hp budget).found h).1
  · rename_i hle
    rw [if_neg hle] at h
    have hspec := solveHeuristic_spec p budget
    have hfeas : (solveHeuristic p budget).status = .feasibleNotProvenOptimal := by
      rcases h with h | h
      · rcases hspec.status with h' | h' | h' <;> rw [h'] at h <;> exact absurd h (by simp)
      · exact h
    exact ((verifyCut_eq_ok_iff hp).mp (hspec.found hfeas)).1

/-- A well-formed problem is never found invalid. -/
theorem solve_valid {p : ContainmentProblem} (hp : p.WellFormed) (budget : SolveBudget)
    (limit : ℕ) : (solve p budget limit).status ≠ .invalidProblem := by
  rw [solve]
  split
  · exact (solveExact_spec hp budget).valid
  · rcases (solveHeuristic_spec p budget).status with h | h | h <;> rw [h] <;> simp

/-! ## The inputs -/

namespace PlanInputs

variable {inputs : PlanInputs} {r : ResourceId}

/-- The sources are the Present resources of the topology. -/
theorem mem_sources :
    r ∈ inputs.sources ↔ r ∈ inputs.evidence.presentResources ∧
      ∃ i, inputs.topology.find r = some i := by
  rw [sources, mem_sortBy, List.mem_filter, Option.isSome_iff_exists]

/-- The missing sources are the other Present resources. -/
theorem mem_missingSources :
    r ∈ inputs.missingSources ↔ r ∈ inputs.evidence.presentResources ∧
      inputs.topology.find r = none := by
  rw [missingSources, mem_sortBy, List.mem_filter, Option.isNone_iff_eq_none]

/-- With Current evidence every Present resource is in the topology. -/
theorem find_of_current (h : inputs.evidenceCurrency = .current)
    (hr : r ∈ inputs.evidence.presentResources) : ∃ i, inputs.topology.find r = some i := by
  have hmissing : inputs.missingSources = [] := by
    rw [evidenceCurrency] at h
    split at h
    · exact absurd h (by simp)
    · rename_i hm
      simpa using hm
  cases hf : inputs.topology.find r with
  | some i => exact ⟨i, rfl⟩
  | none =>
    have := mem_missingSources.mpr ⟨hr, hf⟩
    rw [hmissing] at this
    exact absurd this (by simp)

/-- The obligations are the identities of the protected nodes. -/
theorem mem_obligations :
    r ∈ inputs.obligations ↔
      ∃ i < inputs.topology.nodeCount, (inputs.topology.node i).protected_obligation = true ∧
        (inputs.topology.node i).id = r := by
  simp only [obligations, List.mem_map, List.mem_filter, Topology.mem_nodes_iff]
  constructor
  · rintro ⟨_, ⟨⟨i, hi, rfl⟩, hprot⟩, rfl⟩
    exact ⟨i, hi, hprot, rfl⟩
  · rintro ⟨i, hi, hprot, rfl⟩
    exact ⟨_, ⟨⟨i, hi, rfl⟩, hprot⟩, rfl⟩

end PlanInputs

/-! ## The built problem -/

section Built

variable {inputs : PlanInputs} {p : ContainmentProblem}

/-- The sources of the problem are the indices of the Present resources. -/
theorem mem_built_sources (h : ContainmentProblem.build inputs.graph inputs.instanceSpec = .ok p)
    {i : NodeIndex} :
    i ∈ p.sources ↔ ∃ r ∈ inputs.evidence.presentResources, inputs.topology.find r = some i := by
  rw [mem_sources_of_build h]
  simp only [PlanInputs.instanceSpec, PlanInputs.mem_sources]
  constructor
  · rintro ⟨r, ⟨hr, -⟩, hi⟩
    exact ⟨r, hr, hi⟩
  · rintro ⟨r, hr, hi⟩
    exact ⟨r, ⟨hr, i, hi⟩, hi⟩

/-- The obligations of the problem are the protected nodes. -/
theorem mem_built_protected (h : ContainmentProblem.build inputs.graph inputs.instanceSpec = .ok p)
    {i : NodeIndex} :
    i ∈ p.protected_nodes ↔
      i < inputs.topology.nodeCount ∧ (inputs.topology.node i).protected_obligation = true := by
  rw [mem_protected_of_build h]
  simp only [PlanInputs.instanceSpec, PlanInputs.mem_obligations]
  constructor
  · rintro ⟨r, ⟨j, hj, hprot, rfl⟩, hi⟩
    have hij : i = j := by
      have := inputs.topology.find_node hj
      exact Option.some.inj (hi.symm.trans this)
    exact hij ▸ ⟨hj, hprot⟩
  · rintro ⟨hi, hprot⟩
    exact ⟨_, ⟨i, hi, hprot, rfl⟩, inputs.topology.find_node hi⟩

/-- The problem is about the topology. -/
theorem built_topology (h : ContainmentProblem.build inputs.graph inputs.instanceSpec = .ok p) :
    p.graph.topology = inputs.topology := by
  rw [(build_copied h).1]
  rfl

/-- The frontier is what the sources reach. -/
theorem mem_frontier (hp : p.WellFormed) {i : NodeIndex} :
    i ∈ p.frontier ↔ Walks.Reaches p.graph.Conservative ∅ {x | x ∈ p.sources} i := by
  rw [hp.frontier_eq, computeFrontier, mem_sortBy,
    Bfs.mem_visited_iff (edges_inside p) (fun x hx => Finset.mem_range.mpr (hp.sources_lt x hx))
      (Finset.card_range _).le]
  have hnil : {y : NodeIndex | y ∈ ([] : List NodeIndex)} = ∅ := by
    ext y
    simp
  rw [hnil]
  rfl

end Built

/-! ## Boundary members -/

section Members

variable {p : ContainmentProblem} {members : List NodeIndex}

/-- A boundary member names its node. -/
theorem boundaryMember_resource (member : NodeIndex) :
    (boundaryMember p members member).resource = p.resourceId member ∧
      (boundaryMember p members member).weight = UInt64.ofNat (p.weight member) := by
  simp only [boundaryMember]
  split <;> exact ⟨rfl, rfl⟩

/-- The witness of a boundary member names nodes. -/
theorem boundaryMember_witness (hp : p.WellFormed) (member : NodeIndex) {step : ResourceId}
    (h : step ∈ (boundaryMember p members member).witness_path) :
    ∃ i < p.nodeCount, step = p.resourceId i := by
  simp only [boundaryMember] at h
  split at h
  · obtain ⟨i, hi, rfl⟩ := List.mem_map.mp h
    exact ⟨i, (lt_of_mem_residual hp hi).1, rfl⟩
  · exact absurd h (by simp)

end Members

/-! ## The ways through the planner -/

/-- The fields of a plan that no way through the planner changes. -/
structure SameOrigin (start plan : ContainmentPlan) : Prop where
  generation : plan.generation = start.generation
  authority : plan.authority = start.authority
  topology_digest : plan.topology_digest = start.topology_digest
  policy_digest : plan.policy_digest = start.policy_digest
  evidence_digest : plan.evidence_digest = start.evidence_digest
  failure_sources : plan.failure_sources = start.failure_sources
  protected_obligations : plan.protected_obligations = start.protected_obligations

/-- The way a plan was computed. -/
inductive Way (inputs : PlanInputs) (start : ContainmentPlan) :
    ContainmentPlan → Option ContainmentProblem → Prop
  | noFailures {plan : ContainmentPlan} : inputs.sources = [] → inputs.missingSources = [] →
      planNoFailures inputs start = .ok plan → Way inputs start plan none
  | noKnownSource {plan : ContainmentPlan} : inputs.sources = [] → inputs.missingSources ≠ [] →
      planNoKnownSource inputs start = .ok plan → Way inputs start plan none
  | noObligations {plan : ContainmentPlan} : inputs.sources ≠ [] → inputs.obligations = [] →
      planNoObligations inputs start = .ok plan → Way inputs start plan none
  | solved {plan : ContainmentPlan} {p : ContainmentProblem} : inputs.sources ≠ [] →
      inputs.obligations ≠ [] →
      ContainmentProblem.build inputs.graph inputs.instanceSpec = .ok p →
      planSolved inputs p start = .ok plan → Way inputs start plan (some p)

/-- A computed plan is sealed and was computed one of the four ways. -/
theorem computePlan_way {inputs : PlanInputs} {authority : AuthorityVector}
    {generation : PlanGeneration} {c : PlanComputation}
    (h : computePlan inputs authority generation = .ok c) :
    ∃ plan, c.plan = plan.sealed ∧
      Way inputs (inputs.initialPlan authority generation) plan c.problem := by
  simp only [computePlan, List.isEmpty_iff, Bool.and_eq_true] at h
  -- the source returns early from the first three ways
  split at h
  · rename_i hnone
    rw [bind_eq_ok] at h
    obtain ⟨plan, hplan, h⟩ := h
    rw [pure_eq_ok] at h
    exact ⟨plan, h ▸ rfl, h ▸ .noFailures hnone.1 hnone.2 hplan⟩
  split at h
  · rename_i hnone hsources
    rw [bind_eq_ok] at h
    obtain ⟨plan, hplan, h⟩ := h
    rw [pure_eq_ok] at h
    exact ⟨plan, h ▸ rfl, h ▸ .noKnownSource hsources (fun hm => hnone ⟨hsources, hm⟩) hplan⟩
  split at h
  · rename_i hsources hobl
    rw [bind_eq_ok] at h
    obtain ⟨plan, hplan, h⟩ := h
    rw [pure_eq_ok] at h
    exact ⟨plan, h ▸ rfl, h ▸ .noObligations hsources hobl hplan⟩
  · rename_i hsources hobl
    simp only [bind_eq_ok, pure_eq_ok] at h
    obtain ⟨p, hp, plan, hplan, h⟩ := h
    exact ⟨plan, h ▸ rfl, h ▸ .solved hsources hobl hp hplan⟩

/-- With a built problem the plan is the solved one. -/
theorem computePlan_of_build {inputs : PlanInputs} (authority : AuthorityVector)
    (generation : PlanGeneration) {p : ContainmentProblem} {plan : ContainmentPlan}
    (hbuild : ContainmentProblem.build inputs.graph inputs.instanceSpec = .ok p)
    (hplan : planSolved inputs p (inputs.initialPlan authority generation) = .ok plan) :
    computePlan inputs authority generation = .ok ⟨plan.sealed, some p⟩ := by
  obtain ⟨hf, ho, -⟩ := build_eq_ok hbuild
  have hsources : inputs.sources ≠ [] := hf
  have hobligations : inputs.obligations ≠ [] := ho
  simp only [computePlan, List.isEmpty_iff, hsources, hobligations, Bool.and_eq_true, false_and,
    if_false]
  rw [bind_eq_ok]
  refine ⟨p, hbuild, ?_⟩
  rw [bind_eq_ok]
  exact ⟨plan, hplan, rfl⟩

section Ways

variable {inputs : PlanInputs} {start plan : ContainmentPlan} {p : ContainmentProblem}

/-- Without failures the empty boundary is proven. -/
theorem planNoFailures_spec (h : planNoFailures inputs start = .ok plan) :
    SameOrigin start plan ∧
      ContainmentBoundary.create inputs.boundary_generation [] = .ok plan.boundary ∧
      plan.claim = .provenContainment ∧ plan.currency = .current ∧
      plan.total_weight = start.total_weight ∧ plan.member_count = start.member_count := by
  rw [planNoFailures, bind_eq_ok] at h
  obtain ⟨b, hb, h⟩ := h
  simp only [pure_eq_ok] at h
  subst h
  exact ⟨⟨rfl, rfl, rfl, rfl, rfl, rfl, rfl⟩, hb, rfl, rfl, rfl, rfl⟩

/-- Without a known source nothing is claimed. -/
theorem planNoKnownSource_spec (h : planNoKnownSource inputs start = .ok plan) :
    SameOrigin start plan ∧
      ContainmentBoundary.create inputs.boundary_generation [] = .ok plan.boundary ∧
      plan.claim = .indeterminate := by
  rw [planNoKnownSource, bind_eq_ok] at h
  obtain ⟨b, hb, h⟩ := h
  simp only [pure_eq_ok] at h
  subst h
  exact ⟨⟨rfl, rfl, rfl, rfl, rfl, rfl, rfl⟩, hb, rfl⟩

/-- The members of the boundary when there are no obligations. -/
def sourceMembers (inputs : PlanInputs) : List BoundaryMember :=
  (inputs.sources.filter (sourceContainable inputs)).map (sourceMember inputs)

/-- Whether every source that must be contained can be, with Current evidence. -/
def SourcesProven (inputs : PlanInputs) : Prop :=
  inputs.evidenceCurrency = .current ∧
    (inputs.policy.require_failure_source_inclusion = true →
      ∀ r ∈ inputs.sources, sourceContainable inputs r = true)

/-- Without obligations the containable sources are the boundary. -/
theorem planNoObligations_spec (h : planNoObligations inputs start = .ok plan) :
    SameOrigin start plan ∧
      ContainmentBoundary.create inputs.boundary_generation (sourceMembers inputs) =
        .ok plan.boundary ∧
      plan.total_weight = plan.boundary.totalWeight ∧
      plan.member_count = UInt64.ofNat plan.boundary.members.length ∧
      plan.uncontainable_sources =
        inputs.sources.filter (fun id => !sourceContainable inputs id) ∧
      ((SourcesProven inputs ∧ plan.claim = .provenContainment) ∨
        (¬ SourcesProven inputs ∧ plan.claim = .indeterminate)) := by
  rw [planNoObligations] at h
  simp only [bind_eq_ok] at h
  obtain ⟨b, hb, h⟩ := h
  -- the test of the source is the fact that the sources are proven
  have hproven : ((!inputs.policy.require_failure_source_inclusion ||
      (inputs.sources.filter fun id => !sourceContainable inputs id).isEmpty) &&
        inputs.evidenceCurrency == .current) = true ↔ SourcesProven inputs := by
    simp only [SourcesProven, Bool.and_eq_true, Bool.or_eq_true, Bool.not_eq_true',
      List.isEmpty_iff, List.filter_eq_nil_iff, beq_iff_eq, Bool.not_eq_false]
    cases inputs.policy.require_failure_source_inclusion <;> simp [and_comm]
  split at h
  · rename_i hok
    simp only [pure_eq_ok] at h
    subst h
    exact ⟨⟨rfl, rfl, rfl, rfl, rfl, rfl, rfl⟩, hb, rfl, rfl, rfl, Or.inl ⟨hproven.mp hok, rfl⟩⟩
  · rename_i hok
    split at h
    · simp only [pure_eq_ok] at h
      subst h
      exact ⟨⟨rfl, rfl, rfl, rfl, rfl, rfl, rfl⟩, hb, rfl, rfl, rfl,
        Or.inr ⟨fun hs => hok (hproven.mpr hs), rfl⟩⟩
    · simp only [pure_eq_ok] at h
      subst h
      exact ⟨⟨rfl, rfl, rfl, rfl, rfl, rfl, rfl⟩, hb, rfl, rfl, rfl,
        Or.inr ⟨fun hs => hok (hproven.mpr hs), rfl⟩⟩

/-- The notes and counters change none of the fields the plan came with. -/
theorem countedPlan_spec (solution : CutSolution) :
    SameOrigin start (countedPlan p solution (notedPlan inputs p start)) ∧
      (countedPlan p solution (notedPlan inputs p start)).boundary = start.boundary ∧
      (countedPlan p solution (notedPlan inputs p start)).uncontainable_sources =
        p.uncontainable_sources.map p.resourceId ∧
      (countedPlan p solution (notedPlan inputs p start)).proven_necessary_members =
        start.proven_necessary_members ∧
      (countedPlan p solution (notedPlan inputs p start)).indeterminate_necessity =
        start.indeterminate_necessity ∧
      (countedPlan p solution (notedPlan inputs p start)).infeasibility = start.infeasibility := by
  simp only [countedPlan]
  split <;> exact ⟨⟨rfl, rfl, rfl, rfl, rfl, rfl, rfl⟩, rfl, rfl, rfl, rfl, rfl⟩

/-- The claim of a found set. -/
theorem foundClaim_spec (optimal : Bool) :
    (∃ claim x, foundClaim inputs p optimal start =
      { start with claim := claim, explanation := x }) ∧
    ((foundClaim inputs p optimal start).claim = .provenContainment ↔
      frontierCurrency inputs p = .current ∧
        (inputs.policy.require_failure_source_inclusion = true →
          start.uncontainable_sources = []) ∧ optimal = true) ∧
    ((foundClaim inputs p optimal start).claim = .provenFeasibleNotMinimal ↔
      frontierCurrency inputs p = .current ∧
        (inputs.policy.require_failure_source_inclusion = true →
          start.uncontainable_sources = []) ∧ optimal = false) ∧
    (foundClaim inputs p optimal start).claim ≠ .provenInfeasible := by
  simp only [foundClaim, bne_iff_ne, ne_eq]
  -- a frontier that is not current is told first, whatever else holds
  by_cases hcur : frontierCurrency inputs p = .current
  · rw [if_neg (not_not.mpr hcur)]
    split
    · rename_i hreq
      simp only [Bool.and_eq_true, Bool.not_eq_true', List.isEmpty_eq_false_iff] at hreq
      refine ⟨⟨_, _, rfl⟩, ⟨fun h => absurd h (by simp [addReason]), fun h => ?_⟩,
        ⟨fun h => absurd h (by simp [addReason]), fun h => ?_⟩, by simp [addReason]⟩
      · exact absurd (h.2.1 hreq.1) hreq.2
      · exact absurd (h.2.1 hreq.1) hreq.2
    · rename_i hreq
      simp only [Bool.and_eq_true, Bool.not_eq_true', List.isEmpty_eq_false_iff, not_and,
        not_not] at hreq
      cases optimal with
      | true => exact ⟨⟨_, _, rfl⟩, by simpa [hcur] using hreq, by simp, by simp⟩
      | false => exact ⟨⟨_, _, rfl⟩, by simp, by simpa [hcur] using hreq, by simp⟩
  · rw [if_pos hcur]
    split <;>
      exact ⟨⟨_, _, rfl⟩, by simp [addReason, hcur], by simp [addReason, hcur], by simp [addReason]⟩

/-- The analysis sorts the members it is given into its lists. -/
theorem analyzeNecessity_spec (members : List NodeIndex) (budget : SolveBudget) :
    (analyzeNecessity p members budget).proven_necessary.Sublist (sortBy id members).dedup ∧
      (analyzeNecessity p members budget).indeterminate.Sublist (sortBy id members).dedup := by
  -- one member goes to the end of at most one list
  have hstep (result : NecessityResult) (node : NodeIndex) :
      (analyzeNode p budget result node).proven_necessary.Sublist
          (result.proven_necessary ++ [node]) ∧
        (analyzeNode p budget result node).indeterminate.Sublist
          (result.indeterminate ++ [node]) := by
    have hkeep (l : List NodeIndex) : l.Sublist (l ++ [node]) := List.sublist_append_left _ _
    rw [analyzeNode]
    split
    · exact ⟨hkeep _, hkeep _⟩
    split
    · exact ⟨List.Sublist.refl _, hkeep _⟩
    · simp only
      split
      · exact ⟨List.Sublist.refl _, hkeep _⟩
      · exact ⟨hkeep _, hkeep _⟩
      · exact ⟨hkeep _, hkeep _⟩
      · exact ⟨hkeep _, List.Sublist.refl _⟩
      · exact ⟨hkeep _, List.Sublist.refl _⟩
  have hfold (nodes : List NodeIndex) (result : NecessityResult) :
      (nodes.foldl (analyzeNode p budget) result).proven_necessary.Sublist
          (result.proven_necessary ++ nodes) ∧
        (nodes.foldl (analyzeNode p budget) result).indeterminate.Sublist
          (result.indeterminate ++ nodes) := by
    induction nodes generalizing result with
    | nil => simp
    | cons node nodes ih =>
      obtain ⟨h1, h2⟩ := ih (analyzeNode p budget result node)
      obtain ⟨h3, h4⟩ := hstep result node
      refine ⟨h1.trans ?_, h2.trans ?_⟩
      · simpa using h3.append_right nodes
      · simpa using h4.append_right nodes
  simpa [analyzeNecessity] using hfold (sortBy id members).dedup {}

/-- The necessity lists of a plan name members. -/
structure NecessityOf (p : ContainmentProblem) (members : List NodeIndex) (ids : List ResourceId) :
    Prop where
  length_le : ids.length ≤ members.length
  named : ∀ id ∈ ids, ∃ x ∈ members, id = p.resourceId x

/-- A part of the members, sorted and without repeats, names members. -/
theorem NecessityOf.of_sublist {members nodes : List NodeIndex}
    (h : nodes.Sublist (sortBy id members).dedup) :
    NecessityOf p members (nodes.map p.resourceId) where
  length_le := by
    have hlen := h.length_le.trans (List.dedup_sublist _).length_le
    rwa [length_sortBy, ← List.length_map p.resourceId] at hlen
  named id hid := by
    obtain ⟨x, hx, rfl⟩ := List.mem_map.mp hid
    exact ⟨x, mem_sortBy.mp (List.mem_dedup.mp (h.subset hx)), rfl⟩

/-- What a found set makes of the plan. -/
structure FoundPlan (inputs : PlanInputs) (p : ContainmentProblem) (solution : CutSolution)
    (start plan : ContainmentPlan) : Prop where
  origin : SameOrigin start plan
  boundary : ContainmentBoundary.create inputs.boundary_generation
    ((planMembers p solution.members).map (boundaryMember p (planMembers p solution.members))) = .ok plan.boundary
  total_weight : plan.total_weight = plan.boundary.totalWeight
  member_count : plan.member_count = UInt64.ofNat plan.boundary.members.length
  uncontainable_sources : plan.uncontainable_sources = start.uncontainable_sources
  infeasibility : plan.infeasibility = start.infeasibility
  proven : plan.claim = .provenContainment ↔ frontierCurrency inputs p = .current ∧
    (inputs.policy.require_failure_source_inclusion = true → start.uncontainable_sources = []) ∧
    solution.status = .provenOptimal
  feasible : plan.claim = .provenFeasibleNotMinimal ↔ frontierCurrency inputs p = .current ∧
    (inputs.policy.require_failure_source_inclusion = true → start.uncontainable_sources = []) ∧
    solution.status ≠ .provenOptimal
  not_infeasible : plan.claim ≠ .provenInfeasible
  proven_necessary : plan.proven_necessary_members = start.proven_necessary_members ∨
    NecessityOf p (planMembers p solution.members) plan.proven_necessary_members
  indeterminate : plan.indeterminate_necessity = start.indeterminate_necessity ∨
    NecessityOf p (planMembers p solution.members) plan.indeterminate_necessity

/-- A found set makes a found plan. -/
theorem planFound_spec {solution : CutSolution}
    (h : planFound inputs p solution start = .ok plan) :
    FoundPlan inputs p solution start plan := by
  rw [planFound, bind_eq_ok] at h
  obtain ⟨b, hb, h⟩ := h
  simp only [pure_eq_ok] at h
  -- what is set before the claim is decided
  generalize hq : ({ start with
    boundary := b
    total_weight := b.totalWeight
    member_count := UInt64.ofNat b.members.length
    feasibility := .provenFeasible
    optimality := if solution.status == .provenOptimal then .provenOptimal else .boundedNotProven
    explanation := foundReasons solution start.explanation } : ContainmentPlan) = q at h
  obtain ⟨⟨claim, x, heq⟩, hproven, hfeas, hinf⟩ := @foundClaim_spec inputs q p
    (solution.status == .provenOptimal)
  rw [beq_iff_eq] at hproven
  rw [beq_eq_false_iff_ne] at hfeas
  have hunc : q.uncontainable_sources = start.uncontainable_sources := by rw [← hq]
  rw [heq] at h hproven hfeas hinf
  rw [hunc] at hproven hfeas
  obtain ⟨hnec, hind⟩ := analyzeNecessity_spec (p := p) (planMembers p solution.members) inputs.budget
  rw [addNecessity] at h
  split at h
  · subst h hq
    exact ⟨⟨rfl, rfl, rfl, rfl, rfl, rfl, rfl⟩, hb, rfl, rfl, rfl, rfl, hproven, hfeas, hinf,
      Or.inr (.of_sublist hnec), Or.inr (.of_sublist hind)⟩
  · subst h hq
    exact ⟨⟨rfl, rfl, rfl, rfl, rfl, rfl, rfl⟩, hb, rfl, rfl, rfl, rfl, hproven, hfeas, hinf,
      Or.inl rfl, Or.inl rfl⟩

/-- The status of the solver's answer on the problem of the inputs. -/
def solutionOf (inputs : PlanInputs) (p : ContainmentProblem) : CutSolution :=
  solve p inputs.budget inputs.policy.exact_instance_node_limit.toNat

/-- The plan a solved problem starts from. -/
def solvedStart (inputs : PlanInputs) (p : ContainmentProblem) (start : ContainmentPlan) :
    ContainmentPlan :=
  countedPlan p (solutionOf inputs p) (notedPlan inputs p start)

/-- The uncontainable sources of a solved plan are those of the problem. -/
theorem solvedStart_uncontainable :
    (solvedStart inputs p start).uncontainable_sources = [] ↔ p.uncontainable_sources = [] := by
  rw [solvedStart, (countedPlan_spec _).2.2.1, List.map_eq_nil_iff]

/-- The plan of a found set. -/
theorem planSolved_of_found (h : (solutionOf inputs p).status = .provenOptimal ∨
    (solutionOf inputs p).status = .feasibleNotProvenOptimal) :
    planSolved inputs p start =
      planFound inputs p (solutionOf inputs p) (solvedStart inputs p start) := by
  simp only [solutionOf] at h
  rcases h with h | h
  · simp only [planSolved, h]
    rfl
  · simp only [planSolved, h]
    rfl

/-- The plan of an infeasible answer. -/
theorem planSolved_of_infeasible (h : (solutionOf inputs p).status = .provenInfeasible) :
    planSolved inputs p start =
      .ok (planInfeasible p (solutionOf inputs p) (solvedStart inputs p start)) := by
  simp only [solutionOf] at h
  simp only [planSolved, h]
  rfl

/-- The plan of a search that gave up without a set. -/
theorem planSolved_of_limit (h : (solutionOf inputs p).status = .limitReachedNoSolution) :
    planSolved inputs p start = .ok (planLimitReached (solvedStart inputs p start)) := by
  simp only [solutionOf] at h
  simp only [planSolved, h]
  rfl

/-- A solved problem gives a found plan, or a plan without a boundary whose claim says why. -/
theorem planSolved_spec (hp : p.WellFormed) (h : planSolved inputs p start = .ok plan) :
    (((solutionOf inputs p).status = .provenOptimal ∨
        (solutionOf inputs p).status = .feasibleNotProvenOptimal) ∧
      FoundPlan inputs p (solutionOf inputs p) (solvedStart inputs p start) plan) ∨
    ((solutionOf inputs p).status = .provenInfeasible ∧ SameOrigin start plan ∧
      plan.boundary = start.boundary ∧ plan.claim = .provenInfeasible) ∨
    ((solutionOf inputs p).status = .limitReachedNoSolution ∧ SameOrigin start plan ∧
      plan.boundary = start.boundary ∧ plan.claim = .indeterminate) := by
  obtain ⟨horigin, hboundary, -, -, -, -⟩ :=
    @countedPlan_spec inputs start p (solutionOf inputs p)
  -- a well formed problem is never answered as invalid
  cases hst : (solutionOf inputs p).status with
  | provenOptimal =>
    rw [planSolved_of_found (Or.inl hst)] at h
    exact Or.inl ⟨Or.inl rfl, planFound_spec h⟩
  | feasibleNotProvenOptimal =>
    rw [planSolved_of_found (Or.inr hst)] at h
    exact Or.inl ⟨Or.inr rfl, planFound_spec h⟩
  | provenInfeasible =>
    rw [planSolved_of_infeasible hst] at h
    obtain rfl := Except.ok.inj h
    refine Or.inr (Or.inl ⟨rfl, ?_⟩)
    rw [planInfeasible]
    split <;> exact ⟨⟨horigin.1, horigin.2, horigin.3, horigin.4, horigin.5, horigin.6, horigin.7⟩,
      hboundary, rfl⟩
  | limitReachedNoSolution =>
    rw [planSolved_of_limit hst] at h
    obtain rfl := Except.ok.inj h
    exact Or.inr (Or.inr ⟨rfl, ⟨horigin.1, horigin.2, horigin.3, horigin.4, horigin.5, horigin.6,
      horigin.7⟩, hboundary, rfl⟩)
  | invalidProblem => exact absurd hst (solve_valid hp _ _)

end Ways

/-- The origin is kept along a chain of changes. -/
theorem SameOrigin.trans {a b c : ContainmentPlan} (h : SameOrigin a b) (h' : SameOrigin b c) :
    SameOrigin a c where
  generation := h'.generation.trans h.generation
  authority := h'.authority.trans h.authority
  topology_digest := h'.topology_digest.trans h.topology_digest
  policy_digest := h'.policy_digest.trans h.policy_digest
  evidence_digest := h'.evidence_digest.trans h.evidence_digest
  failure_sources := h'.failure_sources.trans h.failure_sources
  protected_obligations := h'.protected_obligations.trans h.protected_obligations

/-- A boundary that was created for a plan, or the one it started with. -/
def BoundaryOf (generation : BoundaryGeneration) (start plan : ContainmentPlan) : Prop :=
  plan.boundary = start.boundary ∨
    ∃ members, ContainmentBoundary.create generation members = .ok plan.boundary

/-- Every way through the planner keeps the origin and creates the boundary or leaves it alone. -/
theorem Way.origin {inputs : PlanInputs} {start plan : ContainmentPlan}
    {problem : Option ContainmentProblem} (h : Way inputs start plan problem) :
    SameOrigin start plan ∧ BoundaryOf inputs.boundary_generation start plan := by
  cases h with
  | noFailures _ _ hplan =>
    obtain ⟨horigin, hboundary, -⟩ := planNoFailures_spec hplan
    exact ⟨horigin, Or.inr ⟨_, hboundary⟩⟩
  | noKnownSource _ _ hplan =>
    obtain ⟨horigin, hboundary, -⟩ := planNoKnownSource_spec hplan
    exact ⟨horigin, Or.inr ⟨_, hboundary⟩⟩
  | noObligations _ _ hplan =>
    obtain ⟨horigin, hboundary, -⟩ := planNoObligations_spec hplan
    exact ⟨horigin, Or.inr ⟨_, hboundary⟩⟩
  | @solved p _ _ hbuild hplan =>
    rcases planSolved_spec (ContainmentProblem.build_wellFormed hbuild) hplan with
      ⟨-, hfound⟩ | ⟨-, horigin, hboundary, -⟩ | ⟨-, horigin, hboundary, -⟩
    · obtain ⟨hstart, -⟩ := @countedPlan_spec inputs start p (solutionOf inputs p)
      exact ⟨hstart.trans hfound.origin, Or.inr ⟨_, hfound.boundary⟩⟩
    · exact ⟨horigin, Or.inl hboundary⟩
    · exact ⟨horigin, Or.inl hboundary⟩

end Fcfn
