import Fcfn.Engine.Heuristic
import Fcfn.Engine.World

/-!
# Members and their witnesses

The planner passes once more over the members of a solution, which is an accepted set, so every
trial of that pass is within the bounds and no member is left that could be dropped. Without a
member that is needed some residual path is open; since the boundary itself leaves none, the path
goes through that member, and it is the member's witness. `members_load_bearing` says so of the
plan, in the resources of the topology. -/

namespace Fcfn

open Words Sorted Walks Deletion ContainmentProblem

/-! ## The pass over a solution -/

section Problem

variable {p : ContainmentProblem} {members : List NodeIndex} {x : NodeIndex}

/-- The needed members of an accepted set are an accepted set without a member that could be
dropped. -/
theorem planMembers_minimal (hp : p.WellFormed) (hacc : p.Accepts members) :
    p.Accepts (planMembers p members) ∧
      ∀ x ∈ planMembers p members, isMandatoryMember p x = false →
        ¬ p.Accepts ((planMembers p members).filter (fun y => decide (y ≠ x))) := by
  have hsorted : p.Accepts ([] ++ sortBy id members) := by
    rw [List.nil_append]
    exact hacc.perm perm_sortBy.symm
  have hpass : planMembers p members = prune (accepted p)
      (fun node => p.isSource node && p.require_source_inclusion) [] (sortBy id members) :=
    restoreMinimality_eq_prune hsorted.nodup
  have hleft := @prune_accepted p (fun node => p.isSource node && p.require_source_inclusion) []
    (sortBy id members) hp hsorted
  rw [← hpass] at hleft
  refine ⟨hleft.1, fun x hx hoptional => hleft.2 x ?_ hx ?_⟩
  · rw [hpass] at hx
    exact prune_sublist.subset hx
  · -- a member is containable, so it is exempt when it is mandatory
    have hcont := hleft.1.containable x hx
    rw [isMandatoryMember, hcont, Bool.and_true, Bool.and_comm] at hoptional
    exact hoptional

/-- Without a needed member a residual path is open, and it goes through the member. -/
theorem residual_of_needed (hp : p.WellFormed) (hdisjoint : ∀ s ∈ p.sources, s ∉ p.protected_nodes)
    (hacc : p.Accepts members) (hoptional : isMandatoryMember p x = false)
    (hneeded : ¬ p.Accepts (members.filter (fun y => decide (y ≠ x)))) :
    shortestResidualPath p (members.filter (fun y => decide (y ≠ x))) ≠ [] ∧
      x ∈ shortestResidualPath p (members.filter (fun y => decide (y ≠ x))) := by
  have hopen : shortestResidualPath p (members.filter (fun y => decide (y ≠ x))) ≠ [] := by
    intro hnil
    refine hneeded (hacc.part List.filter_sublist (fun y hy => ?_) ?_)
    · rw [List.mem_filter]
      refine ⟨hacc.mandatory hy, decide_eq_true ?_⟩
      rintro rfl
      rw [hoptional] at hy
      exact absurd hy Bool.false_ne_true
    · exact (separates_iff hp).mpr ⟨hnil, fun s hs hprot => absurd hprot (hdisjoint s hs)⟩
  refine ⟨hopen, ?_⟩
  obtain ⟨y, hy, hmem⟩ := hacc.separates.meets hopen
  have hout := (lt_of_mem_residual hp hy).2
  have hyx : y = x := by
    by_contra hne
    exact hout (List.mem_filter.mpr ⟨hmem, decide_eq_true hne⟩)
  exact hyx ▸ hy

/-- A topology has one edge at most from a node to another. -/
theorem edge_unique (t : Topology) {e e' : Edge} (he : e ∈ t.edges) (he' : e' ∈ t.edges)
    (hfrom : e.from_ = e'.from_) (hto : e.to_ = e'.to_) : e = e' :=
  t.valid.edges_ascending.eq_of_key he he' (by rw [Edge.key, Edge.key, hfrom, hto])

/-- A step uses an UNKNOWN edge only, or no UNKNOWN edge. -/
theorem step_unknown_iff (g : PropagationGraph) (a b : NodeIndex) :
    (!decide (b ∈ g.provenSuccessors a) && g.hasUnknownEdge a b) = true ↔
      ∃ e ∈ g.topology.edges, e.evidence = .unknown ∧ e.from_ = a ∧ e.to_ = b := by
  have hunknown : g.hasUnknownEdge a b = true ↔
      ∃ e ∈ g.topology.edges, e.evidence = .unknown ∧ e.from_ = a ∧ e.to_ = b := by
    simp [PropagationGraph.hasUnknownEdge, and_assoc]
  rw [Bool.and_eq_true, hunknown, and_iff_right_iff_imp]
  rintro ⟨e, he, hevidence, rfl, rfl⟩
  rw [Bool.not_eq_true', decide_eq_false_iff_not]
  intro hproven
  simp only [PropagationGraph.provenSuccessors, List.mem_map, List.mem_filter, Bool.and_eq_true,
    beq_iff_eq] at hproven
  obtain ⟨e', ⟨he', hproven, hfrom⟩, hto⟩ := hproven
  obtain rfl := edge_unique g.topology he he' hfrom.symm hto.symm
  rw [hevidence] at hproven
  exact absurd hproven (by decide)

end Problem

/-! ## In the resources of the topology -/

/-- An edge of the conservative graph leads from one resource to another. -/
def Conducts (t : Topology) (a b : ResourceId) : Prop :=
  ∃ e ∈ t.edges, e.evidence ≠ .refuted ∧ (t.node e.from_).id = a ∧ (t.node e.to_).id = b

/-- Some step of a path is over an UNKNOWN edge. -/
def UsesUnknown (t : Topology) (path : List ResourceId) : Prop :=
  ∃ step ∈ path.zip path.tail, ∃ e ∈ t.edges, e.evidence = .unknown ∧
    (t.node e.from_).id = step.1 ∧ (t.node e.to_).id = step.2

/-- The nodes of a boundary without those of one resource. -/
def nodesWithout (t : Topology) (b : ContainmentBoundary) (resource : ResourceId) :
    List NodeIndex :=
  (b.members.filter (fun member => decide (member.resource ≠ resource))).filterMap
    fun member => t.find member.resource

/-- The witness of a member shows that it is load-bearing. -/
structure Witnessed (inputs : PlanInputs) (b : ContainmentBoundary) (member : BoundaryMember) :
    Prop where
  starts : ∃ r ∈ inputs.evidence.presentResources, member.witness_path.head? = some r
  ends : ∃ r ∈ inputs.obligations, member.witness_path.getLast? = some r
  follows : member.witness_path.IsChain (Conducts inputs.topology)
  through : member.resource ∈ member.witness_path
  avoids : ∀ other ∈ b.members, other.resource ≠ member.resource →
    other.resource ∉ member.witness_path
  unknown : member.witness_uses_unknown = true ↔ UsesUnknown inputs.topology member.witness_path
  reason : member.resource ∉ inputs.evidence.presentResources →
    (member.reason = .cutVertexOnUnknownPath ↔ member.witness_uses_unknown = true)

section Members

variable {inputs : PlanInputs} {p : ContainmentProblem} {members : List NodeIndex} {x : NodeIndex}

/-- The boundary member of a node whose residual path goes through it. -/
theorem boundaryMember_of_path
    (hopen : shortestResidualPath p (members.filter (fun y => decide (y ≠ x))) ≠ [])
    (hx : x ∈ shortestResidualPath p (members.filter (fun y => decide (y ≠ x)))) :
    (boundaryMember p members x).witness_path =
        (shortestResidualPath p (members.filter (fun y => decide (y ≠ x)))).map p.resourceId ∧
      (boundaryMember p members x).witness_uses_unknown =
        (findWitnessPath p (members.filter (fun y => decide (y ≠ x)))).2 ∧
      (p.isSource x = false → ((boundaryMember p members x).reason = .cutVertexOnUnknownPath ↔
        (boundaryMember p members x).witness_uses_unknown = true)) := by
  have hfound : (findWitnessPath p (members.filter (fun y => decide (y ≠ x)))).1 =
      shortestResidualPath p (members.filter (fun y => decide (y ≠ x))) := rfl
  unfold boundaryMember
  rw [← hfound] at hopen hx ⊢
  generalize findWitnessPath p (members.filter (fun y => decide (y ≠ x))) = found at hopen hx ⊢
  obtain ⟨path, uses_unknown⟩ := found
  simp only at hopen hx ⊢
  rw [if_pos (by simp [hopen, hx])]
  refine ⟨rfl, rfl, fun hsource => ?_⟩
  simp only [hsource, Bool.false_eq_true, if_false]
  cases uses_unknown with
  | true => simp
  | false => simp

/-- A path uses an UNKNOWN edge exactly when its image in the resources does. -/
theorem usesUnknown_iff (htop : p.graph.topology = inputs.topology) {excluded : List NodeIndex}
    (hlt : ∀ y ∈ shortestResidualPath p excluded, y < p.nodeCount) :
    (findWitnessPath p excluded).2 = true ↔
      UsesUnknown inputs.topology ((shortestResidualPath p excluded).map p.resourceId) := by
  have hzip : ((shortestResidualPath p excluded).map p.resourceId).zip
      ((shortestResidualPath p excluded).map p.resourceId).tail =
        ((shortestResidualPath p excluded).zip (shortestResidualPath p excluded).tail).map
          (Prod.map p.resourceId p.resourceId) := by
    rw [← List.map_tail, List.zip_map]
  unfold findWitnessPath UsesUnknown
  rw [hzip, List.any_eq_true, ← htop]
  constructor
  · rintro ⟨step, hstep, hunknown⟩
    obtain ⟨e, he, hevidence, hfrom, hto⟩ := (step_unknown_iff p.graph step.1 step.2).mp hunknown
    refine ⟨_, List.mem_map.mpr ⟨step, hstep, rfl⟩, e, he, hevidence, ?_, ?_⟩
    · rw [hfrom]
      rfl
    · rw [hto]
      rfl
  · rintro ⟨_, hmem, e, he, hevidence, hfrom, hto⟩
    obtain ⟨step, hstep, rfl⟩ := List.mem_map.mp hmem
    obtain ⟨a, b⟩ := step
    have hab := List.of_mem_zip hstep
    have hvalid := p.graph.topology.valid.edges_valid e he
    refine ⟨(a, b), hstep, (step_unknown_iff p.graph a b).mpr ⟨e, he, hevidence, ?_, ?_⟩⟩
    · exact resourceId_inj hvalid.from_lt (hlt a hab.1) hfrom
    · exact resourceId_inj hvalid.to_lt (hlt b (List.mem_of_mem_tail hab.2)) hto

/-- The nodes of a created boundary, without those of one resource. -/
theorem nodesWithout_perm {generation : BoundaryGeneration} {b : ContainmentBoundary}
    (hlt : ∀ y ∈ members, y < p.nodeCount) (hx : x < p.nodeCount)
    (hcreate : ContainmentBoundary.create generation
      (members.map (boundaryMember p members)) = .ok b) :
    (nodesWithout p.graph.topology b (p.resourceId x)).Perm
      (members.filter (fun y => decide (y ≠ x))) := by
  obtain ⟨-, hsort, -⟩ := ContainmentBoundary.create_eq_ok hcreate
  have hperm : b.members.Perm (members.map (boundaryMember p members)) := hsort ▸ perm_sortBy
  have hresource : ∀ y, (boundaryMember p members y).resource = p.resourceId y :=
    fun y => (boundaryMember_resource y).1
  -- members have different resources, so the resource names the node
  have hkeep : ∀ y ∈ members, decide ((boundaryMember p members y).resource ≠ p.resourceId x) =
      decide (y ≠ x) := by
    intro y hy
    rw [hresource, decide_eq_decide, not_iff_not]
    exact ⟨resourceId_inj (hlt y hy) hx, fun heq => by rw [heq]⟩
  have hfind : ∀ y ∈ members.filter (fun y => decide (y ≠ x)),
      p.graph.topology.find (boundaryMember p members y).resource = some y := by
    intro y hy
    rw [hresource]
    exact p.graph.topology.find_node (hlt y (List.mem_of_mem_filter hy))
  calc
    List.Perm (nodesWithout p.graph.topology b (p.resourceId x))
        (((members.map (boundaryMember p members)).filter
          (fun member : BoundaryMember => decide (member.resource ≠ p.resourceId x))).filterMap
          (fun member : BoundaryMember => p.graph.topology.find member.resource)) := (hperm.filter _).filterMap _
    _ = (members.filter (fun y => decide (y ≠ x))).filterMap
          (fun y => p.graph.topology.find (boundaryMember p members y).resource) := by
        rw [List.filter_map, List.filterMap_map]
        congr 1
        exact List.filter_congr hkeep
    _ = (members.filter (fun y => decide (y ≠ x))).filterMap some := List.filterMap_congr hfind
    _ = members.filter (fun y => decide (y ≠ x)) := List.filterMap_some

/-- A member whose removal is refused has a witness. -/
theorem witnessed_of_needed
    (hbuild : ContainmentProblem.build inputs.graph inputs.instanceSpec = .ok p)
    (hdisjoint : ∀ s ∈ p.sources, s ∉ p.protected_nodes) {b : ContainmentBoundary}
    (hcreate : ContainmentBoundary.create inputs.boundary_generation
      (members.map (boundaryMember p members)) = .ok b)
    (hacc : p.Accepts members) (hx : x ∈ members) (hoptional : isMandatoryMember p x = false)
    (hneeded : ¬ p.Accepts (members.filter (fun y => decide (y ≠ x)))) :
    Witnessed inputs b (boundaryMember p members x) := by
  have hp := build_wellFormed hbuild
  have htop := built_topology hbuild
  obtain ⟨hopen, hthrough⟩ := residual_of_needed hp hdisjoint hacc hoptional hneeded
  obtain ⟨hwitness, hunknown, hreason⟩ := boundaryMember_of_path hopen hthrough
  have hresource := (@boundaryMember_resource p members x).1
  have hnodes : ∀ y ∈ shortestResidualPath p (members.filter (fun y => decide (y ≠ x))),
      y < p.nodeCount ∧ y ∉ members.filter (fun y => decide (y ≠ x)) :=
    fun y hy => lt_of_mem_residual hp hy
  have hwalk := residual_walk hopen
  -- sources are the nodes whose resources are Present
  have hpresent : ∀ s, s < p.nodeCount → (s ∈ p.sources ↔
      p.resourceId s ∈ inputs.evidence.presentResources) := by
    intro s hs
    have hfind := p.graph.topology.find_node hs
    rw [mem_built_sources hbuild]
    constructor
    · rintro ⟨r, hr, hi⟩
      rw [← htop] at hi
      have hid : p.resourceId s = r := find_id hi
      rwa [hid]
    · intro hr
      exact ⟨_, hr, htop ▸ hfind⟩
  refine ⟨?_, ?_, ?_, ?_, ?_, ?_, ?_⟩
  · obtain ⟨s, hs, hhead⟩ := hwalk.head
    refine ⟨p.resourceId s, (hpresent s (hp.sources_lt s hs)).mp hs, ?_⟩
    rw [hwitness, List.head?_map, hhead, Option.map_some]
  · obtain ⟨t, ht, hlast⟩ := hwalk.last
    obtain ⟨hlt, hprot⟩ := (mem_built_protected hbuild).mp ht
    refine ⟨p.resourceId t, PlanInputs.mem_obligations.mpr ⟨t, hlt, hprot, ?_⟩, ?_⟩
    · rw [resourceId, htop]
    · rw [hwitness, List.getLast?_map, hlast, Option.map_some]
  · rw [hwitness, List.isChain_map]
    refine hwalk.chain.imp fun a c hac => ?_
    obtain ⟨e, he, hevidence, rfl, rfl⟩ := PropagationGraph.mem_conservativeSuccessors.mp hac
    rw [htop] at he
    refine ⟨e, he, hevidence, ?_, ?_⟩
    · rw [resourceId, htop]
    · rw [resourceId, htop]
  · rw [hwitness, hresource]
    exact List.mem_map.mpr ⟨x, hthrough, rfl⟩
  -- the path avoids the other members, because they stay excluded
  · intro other hother hne hin
    obtain ⟨-, hsort, -⟩ := ContainmentBoundary.create_eq_ok hcreate
    rw [hsort, mem_sortBy] at hother
    obtain ⟨y, hy, rfl⟩ := List.mem_map.mp hother
    rw [(boundaryMember_resource y).1] at hne hin
    rw [hresource] at hne
    rw [hwitness] at hin
    obtain ⟨z, hz, heq⟩ := List.mem_map.mp hin
    obtain rfl := resourceId_inj (hnodes z hz).1 (hacc.lt y hy) heq
    refine (hnodes z hz).2 (List.mem_filter.mpr ⟨hy, decide_eq_true ?_⟩)
    rintro rfl
    exact hne rfl
  · rw [hunknown, hwitness]
    exact usesUnknown_iff htop fun y hy => (hnodes y hy).1
  · intro habsent
    rw [hresource] at habsent
    refine hreason ?_
    rw [isSource, decide_eq_false_iff_not]
    exact fun hs => habsent ((hpresent x (hacc.lt x hx)).mp hs)

end Members

/-- Only a found set makes a solved plan feasible. -/
theorem planSolved_feasible {inputs : PlanInputs} {start plan : ContainmentPlan}
    {p : ContainmentProblem} (hp : p.WellFormed) (h : planSolved inputs p start = .ok plan)
    (hfeasible : plan.feasibility = .provenFeasible) :
    p.Accepts (solutionOf inputs p).members ∧
      FoundPlan inputs p (solutionOf inputs p) (solvedStart inputs p start) plan := by
  have hfound : (solutionOf inputs p).status = .provenOptimal ∨
      (solutionOf inputs p).status = .feasibleNotProvenOptimal := by
    cases hst : (solutionOf inputs p).status with
    | provenOptimal => exact Or.inl rfl
    | feasibleNotProvenOptimal => exact Or.inr rfl
    | provenInfeasible =>
      rw [planSolved_of_infeasible hst] at h
      obtain rfl := Except.ok.inj h
      unfold planInfeasible at hfeasible
      simp only at hfeasible
      split at hfeasible <;> exact absurd hfeasible (by simp [addReason])
    | limitReachedNoSolution =>
      rw [planSolved_of_limit hst] at h
      obtain rfl := Except.ok.inj h
      exact absurd hfeasible (by simp [planLimitReached, addReason])
    | invalidProblem => exact absurd hst (solve_valid hp _ _)
  rw [planSolved_of_found hfound] at h
  exact ⟨solve_found hp hfound, planFound_spec h⟩

/-- The members of a feasible solved plan are load-bearing: without a member that policy does not
require, the verifier refuses the boundary, and the member's witness is an open path through it. -/
theorem members_load_bearing {inputs : PlanInputs} {authority : AuthorityVector}
    {generation : PlanGeneration} {c : PlanComputation} {p : ContainmentProblem}
    (hplan : computePlan inputs authority generation = .ok c) (hproblem : c.problem = some p)
    (hfeasible : c.plan.feasibility = .provenFeasible)
    (hdisjoint : ∀ r ∈ inputs.evidence.presentResources, r ∉ inputs.obligations) :
    ∀ member ∈ c.plan.boundary.members,
      ¬ (inputs.policy.require_failure_source_inclusion = true ∧
        member.resource ∈ inputs.evidence.presentResources) →
      (∀ objective, verifyCut p (nodesWithout inputs.topology c.plan.boundary member.resource) ≠
        .ok objective) ∧
        Witnessed inputs c.plan.boundary member := by
  obtain ⟨plan, hsealed, hway⟩ := computePlan_way hplan
  have hfeasible' : plan.feasibility = .provenFeasible := by
    rw [hsealed] at hfeasible
    exact hfeasible
  rw [hproblem] at hway
  rw [hsealed, ContainmentPlan.sealed_boundary]
  cases hway with
  | solved _ _ hbuild hsolved =>
    have hp := build_wellFormed hbuild
    have htop := built_topology hbuild
    obtain ⟨hsolution, hfound⟩ := planSolved_feasible hp hsolved hfeasible'
    obtain ⟨hacc, hminimal⟩ := planMembers_minimal hp hsolution
    have hdisjoint' : ∀ s ∈ p.sources, s ∉ p.protected_nodes := by
      intro s hs hprot
      obtain ⟨r, hr, hi⟩ := (mem_built_sources hbuild).mp hs
      obtain ⟨hlt, hobligation⟩ := (mem_built_protected hbuild).mp hprot
      exact hdisjoint r hr (PlanInputs.mem_obligations.mpr ⟨s, hlt, hobligation, find_id hi⟩)
    have hcreate := hfound.boundary
    generalize planMembers p (solutionOf inputs p).members = members at hacc hminimal hcreate
    intro member hmember hfree
    obtain ⟨-, hsort, -⟩ := ContainmentBoundary.create_eq_ok hcreate
    rw [hsort, mem_sortBy] at hmember
    obtain ⟨x, hx, rfl⟩ := List.mem_map.mp hmember
    have hresource := (@boundaryMember_resource p members x).1
    -- only a source that policy requires would be mandatory
    have hoptional : isMandatoryMember p x = false := by
      rw [Bool.eq_false_iff]
      intro hmandatory
      simp only [isMandatoryMember, Bool.and_eq_true, isSource, decide_eq_true_eq] at hmandatory
      obtain ⟨r, hr, hi⟩ := (mem_built_sources hbuild).mp hmandatory.1.2
      have hid : p.resourceId x = r := find_id (t := p.graph.topology) (htop.symm ▸ hi)
      refine hfree ⟨?_, ?_⟩
      · rw [← hmandatory.1.1, (build_copied hbuild).2.1]
        rfl
      · rw [hresource, hid]
        exact hr
    have hneeded := hminimal x hx hoptional
    refine ⟨fun objective hcut => hneeded ?_,
      witnessed_of_needed hbuild hdisjoint' hcreate hacc hx hoptional hneeded⟩
    rw [hresource, ← htop] at hcut
    exact ((verifyCut_eq_ok_iff hp).mp hcut).1.perm
      (nodesWithout_perm hacc.lt (hacc.lt x hx) hcreate)

/-- The inputs of the chain under a policy that does not ask for the source. -/
def relayInputs : PlanInputs :=
  presentInputs chain { defaultPolicy with require_failure_source_inclusion := false } chainEvidence

/-- The plan for the chain that contains the relay. -/
def relayPlan : PlanComputation := value (computePlan relayInputs {} 1) (by decide +kernel)

/-- The relay of the chain is load-bearing, and its witness is the chain. -/
theorem members_load_bearing_relay :
    relayPlan.plan.boundary.members.map BoundaryMember.resource = [bytesOf "a"] ∧
      ∀ member ∈ relayPlan.plan.boundary.members,
        Witnessed relayInputs relayPlan.plan.boundary member := by
  have hsome : relayPlan.problem.isSome = true := by decide +kernel
  obtain ⟨p, hp⟩ := Option.isSome_iff_exists.mp hsome
  refine ⟨by decide +kernel, fun member hmember => ?_⟩
  exact (members_load_bearing (eq_ok_value _) hp (by decide +kernel) (by decide +kernel) member
    hmember fun h => absurd h.1 (by decide)).2

end Fcfn
