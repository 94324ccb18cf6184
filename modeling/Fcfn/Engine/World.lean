import Fcfn.Engine.PlanFacts

/-!
# Worlds

A topology does not say how failures spread; it says which of the possible ways it admits. A world
is one of them: a relation on resources that has every PROVEN edge and no REFUTED one, and that
adds no edge of its own at a node whose adjacency is complete. `proven_in_every_world` is what a
containment claim means: in every world of the topology the boundary stands between the Present
resources and the obligations. -/

namespace Fcfn

open Words Sorted Walks ContainmentProblem

/-- A way failures may spread that the topology admits. UNKNOWN edges may be there or not, and a
node whose adjacency is not complete may have further edges to any resource. -/
structure World (t : Topology) (spreads : ResourceId → ResourceId → Prop) : Prop where
  proven : ∀ e ∈ t.edges, e.evidence = .proven → spreads (t.node e.from_).id (t.node e.to_).id
  refuted : ∀ e ∈ t.edges, e.evidence = .refuted → ¬ spreads (t.node e.from_).id (t.node e.to_).id
  complete : ∀ i < t.nodeCount, (t.node i).completeness = .complete →
    ∀ r, spreads (t.node i).id r → ∃ e ∈ t.edges, e.from_ = i ∧ (t.node e.to_).id = r

/-- Out of a complete node a world has edges of the conservative graph only. -/
theorem World.conservative {g : PropagationGraph} {spreads : ResourceId → ResourceId → Prop}
    (h : World g.topology spreads) {i : NodeIndex} (hi : i < g.nodeCount)
    (hc : (g.topology.node i).completeness = .complete) {r : ResourceId}
    (hr : spreads (g.topology.node i).id r) :
    ∃ j, g.Conservative i j ∧ (g.topology.node j).id = r := by
  obtain ⟨e, he, rfl, rfl⟩ := h.complete i hi hc r hr
  refine ⟨e.to_, PropagationGraph.mem_conservativeSuccessors.mpr ⟨e, he, ?_, rfl, rfl⟩, rfl⟩
  intro href
  exact h.refuted e he href hr

section Problem

variable {inputs : PlanInputs} {p : ContainmentProblem}

/-- When the frontier is complete, a separating set of the problem disconnects every world. -/
theorem Separates.world (hbuild : ContainmentProblem.build inputs.graph inputs.instanceSpec = .ok p)
    (hcomplete : ∀ i ∈ p.frontier, (inputs.topology.node i).completeness = .complete)
    (hpresent : ∀ r ∈ inputs.evidence.presentResources, ∃ i, inputs.topology.find r = some i)
    {cut : List NodeIndex} (hsep : p.Separates cut) {spreads : ResourceId → ResourceId → Prop}
    (hworld : World inputs.topology spreads) :
    Disconnects spreads {r | r ∈ inputs.evidence.presentResources} {r | r ∈ inputs.obligations}
      ((fun i => (inputs.topology.node i).id) '' {i | i ∈ cut}) := by
  have hp := build_wellFormed hbuild
  have htop := built_topology hbuild
  refine Disconnects.image hsep (fun r hr => ?_) (fun i hi r hr => ?_) (fun i hi hgoal => ?_)
  · obtain ⟨i, hi⟩ := hpresent r hr
    exact ⟨i, (mem_built_sources hbuild).mpr ⟨r, hr, hi⟩, find_id hi⟩
  · -- A reached node is on the frontier, so it is complete.
    have hfrontier := (mem_frontier hp).mpr hi
    have hlt : i < p.nodeCount :=
      hi.rec_on (fun s hs _ => hp.sources_lt s hs)
        (fun _ _ _ _ hab _ => (PropagationGraph.Conservative.lt hab).2)
    rw [← htop] at hworld hr ⊢
    exact hworld.conservative hlt (htop ▸ hcomplete i hfrontier) hr
  · obtain ⟨j, hj, hprot, hid⟩ := PlanInputs.mem_obligations.mp hgoal
    have hlt : i < inputs.topology.nodeCount := by
      have : i < p.nodeCount :=
        hi.rec_on (fun s hs _ => hp.sources_lt s hs)
          (fun _ _ _ _ hab _ => (PropagationGraph.Conservative.lt hab).2)
      rwa [nodeCount, PropagationGraph.nodeCount, htop] at this
    have hij : i = j := by
      have h1 := inputs.topology.find_node hlt
      have h2 := inputs.topology.find_node hj
      rw [← hid] at h1
      exact Option.some.inj (h1.symm.trans h2)
    exact (mem_built_protected hbuild).mpr (hij ▸ ⟨hj, hprot⟩)

/-- With a Current frontier the evidence is Current and every frontier node is complete. -/
theorem frontierCurrency_eq_current
    (hbuild : ContainmentProblem.build inputs.graph inputs.instanceSpec = .ok p)
    (h : frontierCurrency inputs p = .current) :
    inputs.evidenceCurrency = .current ∧
      ∀ i ∈ p.frontier, (inputs.topology.node i).completeness = .complete := by
  rw [frontierCurrency] at h
  split at h
  · exact absurd h (by simp)
  · rename_i hno
    simp only [h, beq_self_eq_true, Bool.and_true, decide_eq_true_eq, not_lt,
      Nat.le_zero] at hno
    refine ⟨h, fun i hi => ?_⟩
    rw [incompleteFrontier, List.countP_eq_zero] at hno
    have := hno i hi
    rw [built_topology hbuild] at this
    simpa using this

end Problem

/-- A boundary created from members has the members' resources. -/
theorem mem_boundary_resources {generation : BoundaryGeneration} {members : List BoundaryMember}
    {b : ContainmentBoundary} (h : ContainmentBoundary.create generation members = .ok b)
    {r : ResourceId} :
    (∃ member ∈ b.members, member.resource = r) ↔ ∃ member ∈ members, member.resource = r := by
  obtain ⟨-, hsort, -⟩ := ContainmentBoundary.create_eq_ok h
  simp only [hsort, mem_sortBy]

/-- A plan that claims containment claims it of every world: no path from a Present resource to an
obligation avoids every member of the boundary, and every Present resource is in the topology. -/
theorem proven_in_every_world {inputs : PlanInputs} {authority : AuthorityVector}
    {generation : PlanGeneration} {c : PlanComputation}
    (hplan : computePlan inputs authority generation = .ok c)
    (hclaim : c.plan.claim = .provenContainment ∨ c.plan.claim = .provenFeasibleNotMinimal) :
    (∀ spreads, World inputs.topology spreads →
      Disconnects spreads {r | r ∈ inputs.evidence.presentResources} {r | r ∈ inputs.obligations}
        {r | ∃ member ∈ c.plan.boundary.members, member.resource = r}) ∧
      ∀ r ∈ inputs.evidence.presentResources, ∃ i, inputs.topology.find r = some i := by
  obtain ⟨plan, hsealed, hway⟩ := computePlan_way hplan
  have hclaim' : plan.claim = .provenContainment ∨ plan.claim = .provenFeasibleNotMinimal := by
    simpa only [hsealed, ContainmentPlan.sealed_claim] using hclaim
  have hboundary : c.plan.boundary = plan.boundary := by
    rw [hsealed, ContainmentPlan.sealed_boundary]
  rw [hboundary]
  generalize c.problem = problem at hway
  cases hway with
  | noFailures hsources hmissing hway =>
    -- There is no Present resource at all.
    have hnone : ∀ r, r ∉ inputs.evidence.presentResources := by
      intro r hr
      cases hf : inputs.topology.find r with
      | none =>
        have := PlanInputs.mem_missingSources.mpr ⟨hr, hf⟩
        rw [hmissing] at this
        exact absurd this (by simp)
      | some i =>
        have := PlanInputs.mem_sources.mpr ⟨hr, i, hf⟩
        rw [hsources] at this
        exact absurd this (by simp)
    refine ⟨fun spreads _ => disconnects_of_no_seeds ?_, fun r hr => absurd hr (hnone r)⟩
    exact Set.eq_empty_of_forall_notMem hnone
  | noKnownSource hsources hmissing hway =>
    obtain ⟨-, -, hind⟩ := planNoKnownSource_spec hway
    rw [hind] at hclaim'
    simp at hclaim'
  | noObligations hsources hobl hway =>
    obtain ⟨-, -, -, -, -, ⟨hproven, -⟩ | ⟨-, hind⟩⟩ := planNoObligations_spec hway
    · refine ⟨fun spreads _ => disconnects_of_no_goals ?_,
        fun r hr => PlanInputs.find_of_current hproven.1 hr⟩
      rw [hobl]
      exact Set.eq_empty_of_forall_notMem (by simp)
    · rw [hind] at hclaim'
      simp at hclaim'
  | @solved p hsources hobl hbuild hway =>
    have hp := build_wellFormed hbuild
    rcases planSolved_spec hp hway with ⟨hst, hfound⟩ | ⟨-, -, -, hc⟩ | ⟨-, -, -, hc⟩
    · have hcurrent : frontierCurrency inputs p = .current := by
        rcases hclaim' with h | h
        · exact (hfound.proven.mp h).1
        · exact (hfound.feasible.mp h).1
      obtain ⟨hevidence, hcomplete⟩ := frontierCurrency_eq_current hbuild hcurrent
      have hpresent : ∀ r ∈ inputs.evidence.presentResources,
          ∃ i, inputs.topology.find r = some i :=
        fun r hr => PlanInputs.find_of_current hevidence hr
      refine ⟨fun spreads hworld => ?_, hpresent⟩
      obtain ⟨hacc, -⟩ := planMembers_spec hp (solve_found hp hst)
      refine Disconnects.mono (Separates.world hbuild hcomplete hpresent hacc.separates hworld)
        (fun _ _ hab => hab) ?_
      rintro r ⟨i, hi, rfl⟩
      refine (mem_boundary_resources hfound.boundary).mpr ⟨_, List.mem_map_of_mem hi, ?_⟩
      rw [(boundaryMember_resource i).1, resourceId, built_topology hbuild]
    · rw [hc] at hclaim'
      simp at hclaim'
    · rw [hc] at hclaim'
      simp at hclaim'

/-- Inputs over a topology in which some resources are Present, confirmed in the boot 7. -/
def presentInputs (topology : Topology) (policy : ContainmentPolicy) (evidence : EvidenceVector) :
    PlanInputs where
  topology := topology
  evidence := evidence
  policy := policy
  freshness := {
    confirmations := some (evidence.presentResources.map fun r => (r, 7))
    current_boot := ⟨7, 1⟩ }
  boundary_generation := 1

/-- The evidence that the source of the chain has failed. -/
def chainEvidence : EvidenceVector :=
  value (EvidenceVector.build [⟨bytesOf "s", .present, 1, Digest.zero⟩]) (by decide +kernel)

/-- The plan for the chain under the default policy. -/
def chainPlan : PlanComputation :=
  value (computePlan (presentInputs chain defaultPolicy chainEvidence) {} 1) (by decide +kernel)

/-- The plan for the chain contains its source, which cuts the chain in every world. -/
theorem proven_in_every_world_chain :
    chainPlan.plan.claim = .provenContainment ∧
      chainPlan.plan.boundary.members.map BoundaryMember.resource = [bytesOf "s"] ∧
      ∀ spreads, World chain spreads →
        Disconnects spreads {r | r ∈ chainEvidence.presentResources}
          {r | r ∈ (presentInputs chain defaultPolicy chainEvidence).obligations}
          {r | ∃ member ∈ chainPlan.plan.boundary.members, member.resource = r} :=
  have h : chainPlan.plan.claim = .provenContainment := by decide +kernel
  ⟨h, by decide +kernel, (proven_in_every_world (eq_ok_value _) (Or.inl h)).1⟩

end Fcfn
