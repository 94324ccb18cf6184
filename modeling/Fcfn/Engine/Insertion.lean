import Fcfn.Engine.ExactSpec
import Fcfn.Engine.Planner

/-!
# Insertion order

A replica may list the nodes and the edges of a definition, and the entries of the evidence, in
another order. `Topology.build` and `EvidenceVector.build` sort them by keys that do not repeat, so
what is built is the same (`Topology.build_perm`, `EvidenceVector.build_perm`), and everything the
planner derives from it. -/

namespace Fcfn

open Sorted

/-- A definition that is built from one order of its nodes and edges is built from any other. -/
theorem TopologyDef.build_of_perm {generation : TopologyGeneration} {nodes nodes' : List NodeSpec}
    {edges edges' : List EdgeSpec} (hnodes : nodes.Perm nodes') (hedges : edges.Perm edges')
    {t : TopologyDef} (h : TopologyDef.build ⟨generation, nodes, edges⟩ = .ok t) :
    TopologyDef.build ⟨generation, nodes', edges'⟩ = .ok t := by
  have hvalid := TopologyDef.build_valid h
  simp only [TopologyDef.build, require_bind_eq_ok, bne_iff_ne, decide_eq_true_eq] at h ⊢
  obtain ⟨hgeneration, hnodes_le, hedges_le, hne, h⟩ := h
  simp only [bind_eq_ok, pure_eq_ok] at h ⊢
  obtain ⟨u, hcheck, raw, hraw, u', hcheck', rfl⟩ := h
  -- the nodes are sorted to the same list, so the edges resolve to the same indices
  have hsorted : sortBy NodeSpec.id nodes' = sortBy NodeSpec.id nodes :=
    sortBy_eq_of_perm hvalid.nodes_ascending hnodes
  obtain ⟨raw', hraw', hperm⟩ := mapM_ok_of_perm hedges hraw
  have hresolved : sortBy Edge.key raw' = sortBy Edge.key raw :=
    sortBy_eq_of_perm hvalid.edges_ascending hperm
  refine ⟨hgeneration, hnodes.length_eq ▸ hnodes_le, hedges.length_eq ▸ hedges_le, ?_, ?_⟩
  · rintro rfl
    exact hne hnodes.eq_nil
  · rw [hsorted]
    exact ⟨u, hcheck, raw', hraw', u', by rw [hresolved]; exact hcheck', by rw [hresolved]⟩

/-- The order of the nodes and edges of a definition does not matter. -/
theorem Topology.build_perm (generation : TopologyGeneration) {nodes nodes' : List NodeSpec}
    {edges edges' : List EdgeSpec} (hnodes : nodes.Perm nodes') (hedges : edges.Perm edges') :
    (Topology.build ⟨generation, nodes, edges⟩).toOption =
      (Topology.build ⟨generation, nodes', edges'⟩).toOption := by
  refine toOption_eq_of_ok fun t => ?_
  rw [Topology.build_eq_ok, Topology.build_eq_ok]
  exact ⟨TopologyDef.build_of_perm hnodes hedges, TopologyDef.build_of_perm hnodes.symm hedges.symm⟩

/-- An evidence vector that is built from one order of its entries is built from any other. -/
theorem EvidenceVector.build_of_perm {entries entries' : List EvidenceEntry}
    (hperm : entries.Perm entries') {v : EvidenceVector}
    (h : EvidenceVector.build entries = .ok v) : EvidenceVector.build entries' = .ok v := by
  have harranged : ∀ sorted, arrange entries = .ok sorted → arrange entries' = .ok sorted := by
    intro sorted harrange
    obtain ⟨hsorted, hvalid⟩ := arrange_eq_ok harrange
    have hsame : sortBy EvidenceEntry.resource entries' = sortBy EvidenceEntry.resource entries :=
      sortBy_eq_of_perm (hsorted ▸ hvalid.ascending) hperm
    unfold arrange at harrange ⊢
    rw [hsame, ← hperm.length_eq]
    exact harrange
  unfold EvidenceVector.build at h
  split at h
  · exact absurd h (by simp)
  · rename_i sorted harrange
    have harrange' := harranged sorted harrange
    unfold EvidenceVector.build
    split
    · rename_i e he
      exact absurd (he.symm.trans harrange') (by simp)
    · rename_i sorted' hs
      obtain rfl := Except.ok.inj (hs.symm.trans harrange')
      exact h

/-- The order of the entries does not matter. -/
theorem EvidenceVector.build_perm {entries entries' : List EvidenceEntry}
    (hperm : entries.Perm entries') :
    (EvidenceVector.build entries).toOption = (EvidenceVector.build entries').toOption :=
  toOption_eq_of_ok fun _ => ⟨build_of_perm hperm, build_of_perm hperm.symm⟩

/-- What a replica computes from a definition, entries of evidence and a policy. -/
def computeFrom (spec : TopologySpec) (entries : List EvidenceEntry) (policy : ContainmentPolicy)
    (freshness : FreshnessView) (boundary_generation : BoundaryGeneration)
    (authority : AuthorityVector) (generation : PlanGeneration) : Result PlanComputation := do
  let topology ← Topology.build spec
  let evidence ← EvidenceVector.build entries
  computePlan ⟨topology, evidence, policy, freshness, boundary_generation⟩ authority generation

/-- Two replicas that are given the same nodes, edges and entries in any orders both refuse them or
compute the same plan and the same problem. -/
theorem plan_ignores_insertion_order (topology_generation : TopologyGeneration)
    {nodes nodes' : List NodeSpec} {edges edges' : List EdgeSpec}
    {entries entries' : List EvidenceEntry} (hnodes : nodes.Perm nodes')
    (hedges : edges.Perm edges') (hentries : entries.Perm entries') (policy : ContainmentPolicy)
    (freshness : FreshnessView) (boundary_generation : BoundaryGeneration)
    (authority : AuthorityVector) (generation : PlanGeneration) :
    (computeFrom ⟨topology_generation, nodes, edges⟩ entries policy freshness boundary_generation
        authority generation).toOption =
      (computeFrom ⟨topology_generation, nodes', edges'⟩ entries' policy freshness
        boundary_generation authority generation).toOption := by
  refine toOption_eq_of_ok fun c => ?_
  have htopology : ∀ t, Topology.build ⟨topology_generation, nodes, edges⟩ = .ok t ↔
      Topology.build ⟨topology_generation, nodes', edges'⟩ = .ok t := by
    intro t
    rw [← mem_toOption, Topology.build_perm topology_generation hnodes hedges, mem_toOption]
  have hevidence : ∀ v, EvidenceVector.build entries = .ok v ↔
      EvidenceVector.build entries' = .ok v := by
    intro v
    rw [← mem_toOption, EvidenceVector.build_perm hentries, mem_toOption]
  simp only [computeFrom, bind_eq_ok, htopology, hevidence]

/-- The entries of a chain on which the failure is at the source. -/
def chainEntries : List EvidenceEntry :=
  [⟨bytesOf "s", .present, 1, Digest.zero⟩, ⟨bytesOf "a", .absent, 1, Digest.zero⟩]

/-- What a replica computes from the chain, given in one order. -/
def chainComputed (nodes : List NodeSpec) (edges : List EdgeSpec) (entries : List EvidenceEntry) :
    Result PlanComputation :=
  computeFrom ⟨1, nodes, edges⟩ entries defaultPolicy ⟨none, ⟨1, 1⟩, false⟩ 1 {} 1

/-- A replica that is given the chain backwards computes a plan, the same as one that is given it
forwards. -/
theorem plan_ignores_insertion_order_chain :
    (chainComputed chainSpec.nodes chainSpec.edges chainEntries).isOk = true ∧
      (chainComputed chainSpec.nodes chainSpec.edges chainEntries).toOption =
        (chainComputed chainSpec.nodes.reverse chainSpec.edges.reverse
          chainEntries.reverse).toOption :=
  ⟨by decide +kernel, plan_ignores_insertion_order 1 (List.reverse_perm _).symm
    (List.reverse_perm _).symm (List.reverse_perm _).symm defaultPolicy _ 1 {} 1⟩

end Fcfn
