import Mathlib.Data.List.Forall2
import Fcfn.Engine.ExactSpec

/-!
# More failures, more propagation, more obligations

Two instances over the same nodes are compared. In the harder one more resources have failed, edges
that were refuted are possible, or more resources are protected (`Harder`). It accepts no set that
the other does not (`Accepts.of_harder`), at the same objective, so with the completeness of the
exact search its answers are no better. An edge that turns from UNKNOWN to PROVEN changes nothing
that the search reads (`solveExact_congr`). -/

namespace Fcfn

open Sorted Walks ContainmentProblem ExactState

/-! ## Revised evidence -/

/-- The evidence of an edge is the same, or the edge was refuted. -/
def EdgeEvidence.MorePossible (a b : EdgeEvidence) : Prop := b = a ∨ a = .refuted

/-- The evidence of an edge is the same, or an unknown edge is now proven. -/
def EdgeEvidence.Confirmed (a b : EdgeEvidence) : Prop := b = a ∨ a = .unknown ∧ b = .proven

/-- Two topologies with the same nodes, and the same edges but for their evidence. -/
structure Topology.Revised (R : EdgeEvidence → EdgeEvidence → Prop) (t t' : Topology) : Prop where
  nodes : t'.nodes = t.nodes
  edges : List.Forall₂
    (fun e e' => e'.from_ = e.from_ ∧ e'.to_ = e.to_ ∧ R e.evidence e'.evidence) t.edges t'.edges

namespace Topology.Revised

variable {R : EdgeEvidence → EdgeEvidence → Prop} {g g' : PropagationGraph}

/-- A possible edge stays possible. -/
theorem conservative (h : Revised EdgeEvidence.MorePossible g.topology g'.topology) {a b : NodeIndex}
    (hab : g.Conservative a b) : g'.Conservative a b := by
  obtain ⟨e, he, hne, rfl, rfl⟩ := PropagationGraph.mem_conservativeSuccessors.mp hab
  obtain ⟨i, hi, rfl⟩ := List.mem_iff_getElem.mp he
  have hi' : i < g'.topology.edges.length := h.edges.length_eq ▸ hi
  obtain ⟨hfrom, hto, hevidence⟩ := h.edges.get hi hi'
  simp only [List.get_eq_getElem] at hfrom hto hevidence
  refine PropagationGraph.mem_conservativeSuccessors.mpr
    ⟨g'.topology.edges[i], List.getElem_mem hi', ?_, hfrom, hto⟩
  rw [hevidence.resolve_right hne]
  exact hne

/-- Confirming edges changes neither side of the conservative view. -/
theorem filter_map_eq {edges edges' : List Edge}
    (h : List.Forall₂ (fun e e' => e'.from_ = e.from_ ∧ e'.to_ = e.to_ ∧
      EdgeEvidence.Confirmed e.evidence e'.evidence) edges edges')
    {α : Type} (keep : NodeIndex → NodeIndex → Bool) (f : NodeIndex → NodeIndex → α) :
    (edges'.filter (fun e => e.evidence != .refuted && keep e.from_ e.to_)).map
        (fun e => f e.from_ e.to_) =
      (edges.filter (fun e => e.evidence != .refuted && keep e.from_ e.to_)).map
        (fun e => f e.from_ e.to_) := by
  induction h with
  | nil => rfl
  | @cons e e' rest rest' he _ ih =>
    obtain ⟨hfrom, hto, hevidence⟩ := he
    have hrefuted : (e'.evidence != .refuted) = (e.evidence != .refuted) := by
      rcases hevidence with heq | ⟨hunknown, hproven⟩
      · rw [heq]
      · rw [hunknown, hproven]
        rfl
    rw [List.filter_cons, List.filter_cons, hrefuted, hfrom, hto]
    split
    · rw [List.map_cons, List.map_cons, ih, hfrom, hto]
    · exact ih

/-- Confirming edges changes no successor. -/
theorem conservativeSuccessors (h : Revised EdgeEvidence.Confirmed g.topology g'.topology)
    (node : NodeIndex) :
    g'.conservativeSuccessors node = g.conservativeSuccessors node :=
  filter_map_eq h.edges (fun a _ => a == node) fun _ b => b

/-- Confirming edges changes no predecessor. -/
theorem conservativePredecessors (h : Revised EdgeEvidence.Confirmed g.topology g'.topology)
    (node : NodeIndex) : g'.conservativePredecessors node = g.conservativePredecessors node :=
  filter_map_eq h.edges (fun _ b => b == node) fun a _ => a

/-- A resource has the same index. -/
theorem find_eq {t t' : Topology} (h : Revised R t t') : t'.find = t.find := by
  funext resource
  rw [Topology.find, Topology.find, h.nodes]

end Topology.Revised

/-! ## Harder instances -/

/-- The second instance differs from the first in that more resources have failed, that refuted
edges are possible, or that more resources are protected when no obligation may be contained. -/
structure Harder (g g' : PropagationGraph) (spec spec' : ContainmentInstanceSpec) : Prop where
  topology : Topology.Revised EdgeEvidence.MorePossible g.topology g'.topology
  failure_sources : ∀ r ∈ spec.failure_sources, r ∈ spec'.failure_sources
  obligations : spec'.protected_obligations = spec.protected_obligations ∨
    spec.allow_protected_inclusion = false ∧
      ∀ r ∈ spec.protected_obligations, r ∈ spec'.protected_obligations
  same : spec' = { spec with
    failure_sources := spec'.failure_sources
    protected_obligations := spec'.protected_obligations }

/-- No failure source is an obligation. -/
def ContainmentProblem.DisjointSources (p : ContainmentProblem) : Prop :=
  ∀ s ∈ p.sources, s ∉ p.protected_nodes

section Harder

variable {g g' : PropagationGraph} {spec spec' : ContainmentInstanceSpec}
  {p p' : ContainmentProblem}

/-- What the problems of two instances have in common. -/
structure Alike (p p' : ContainmentProblem) : Prop where
  nodes : p'.graph.topology.nodes = p.graph.topology.nodes
  require_source_inclusion : p'.require_source_inclusion = p.require_source_inclusion
  allow_protected_inclusion : p'.allow_protected_inclusion = p.allow_protected_inclusion
  minimize_protected_inclusions :
    p'.minimize_protected_inclusions = p.minimize_protected_inclusions
  max_total_weight : p'.max_total_weight = p.max_total_weight
  max_members : p'.max_members = p.max_members

namespace Alike

/-- The nodes are numbered alike. -/
theorem nodeCount (h : Alike p p') : p'.nodeCount = p.nodeCount :=
  congrArg List.length h.nodes

/-- The weights are the same. -/
theorem weight (h : Alike p p') : p'.weight = p.weight := by
  funext node
  rw [ContainmentProblem.weight, ContainmentProblem.weight, Topology.node, Topology.node, h.nodes]

/-- The identities are the same. -/
theorem resourceId (h : Alike p p') : p'.resourceId = p.resourceId := by
  funext node
  rw [ContainmentProblem.resourceId, ContainmentProblem.resourceId, Topology.node, Topology.node,
    h.nodes]

end Alike

/-- Two instances over the same nodes that differ in sources and obligations are alike. -/
theorem alike_of_build {R : EdgeEvidence → EdgeEvidence → Prop}
    (ht : Topology.Revised R g.topology g'.topology)
    (hsame : spec' = { spec with
      failure_sources := spec'.failure_sources
      protected_obligations := spec'.protected_obligations })
    (hb : ContainmentProblem.build g spec = .ok p)
    (hb' : ContainmentProblem.build g' spec' = .ok p') : Alike p p' := by
  obtain ⟨hg, hreq, hallow, hmin, hweight, hsize⟩ := build_copied hb
  obtain ⟨hg', hreq', hallow', hmin', hweight', hsize'⟩ := build_copied hb'
  refine ⟨?_, ?_, ?_, ?_, ?_, ?_⟩
  · rw [hg, hg', ht.nodes]
  · rw [hreq, hreq', hsame]
  · rw [hallow, hallow', hsame]
  · rw [hmin, hmin', hsame]
  · rw [hweight, hweight', hsame]
  · rw [hsize, hsize', hsame]

/-- Every source of the easier problem is one of the harder. -/
theorem Harder.sources (h : Harder g g' spec spec') (hb : ContainmentProblem.build g spec = .ok p)
    (hb' : ContainmentProblem.build g' spec' = .ok p') : ∀ s ∈ p.sources, s ∈ p'.sources := by
  intro s hs
  obtain ⟨r, hr, hfind⟩ := (mem_sources_of_build hb).mp hs
  refine (mem_sources_of_build hb').mpr ⟨r, h.failure_sources r hr, ?_⟩
  rw [h.topology.find_eq]
  exact hfind

/-- Every obligation of the easier problem is one of the harder. -/
theorem Harder.protected_nodes (h : Harder g g' spec spec')
    (hb : ContainmentProblem.build g spec = .ok p)
    (hb' : ContainmentProblem.build g' spec' = .ok p') :
    ∀ x ∈ p.protected_nodes, x ∈ p'.protected_nodes := by
  intro x hx
  obtain ⟨r, hr, hfind⟩ := (mem_protected_of_build hb).mp hx
  refine (mem_protected_of_build hb').mpr ⟨r, ?_, ?_⟩
  · rcases h.obligations with heq | ⟨-, hsub⟩
    · rw [heq]
      exact hr
    · exact hsub r hr
  · rw [h.topology.find_eq]
    exact hfind

/-- When the obligations are the same list, so are the protected nodes. -/
theorem protected_nodes_iff {R : EdgeEvidence → EdgeEvidence → Prop}
    (ht : Topology.Revised R g.topology g'.topology)
    (heq : spec'.protected_obligations = spec.protected_obligations)
    (hb : ContainmentProblem.build g spec = .ok p)
    (hb' : ContainmentProblem.build g' spec' = .ok p') (x : NodeIndex) :
    x ∈ p'.protected_nodes ↔ x ∈ p.protected_nodes := by
  rw [mem_protected_of_build hb, mem_protected_of_build hb', heq, ht.find_eq]

/-- A node that is an obligation of neither problem has the same flag in both. -/
theorem isContainable_eq {R : EdgeEvidence → EdgeEvidence → Prop}
    (ht : Topology.Revised R g.topology g'.topology)
    (hsame : spec'.forced_ineligible = spec.forced_ineligible)
    (hb : ContainmentProblem.build g spec = .ok p)
    (hb' : ContainmentProblem.build g' spec' = .ok p') {x : NodeIndex}
    (hx : x ∉ p.protected_nodes) (hx' : x ∉ p'.protected_nodes) :
    p'.isContainable x = p.isContainable x := by
  rw [isContainable_of_build hb hx, isContainable_of_build hb' hx', hsame, barredFlags,
    barredFlags, ht.nodes, ht.find_eq]

/-- A node is containable in the easier problem when it is in the harder. -/
theorem Harder.containable (h : Harder g g' spec spec')
    (hb : ContainmentProblem.build g spec = .ok p)
    (hb' : ContainmentProblem.build g' spec' = .ok p') {x : NodeIndex}
    (hx : p'.isContainable x = true) : p.isContainable x = true := by
  have hforced : spec'.forced_ineligible = spec.forced_ineligible := by rw [h.same]
  have halike := alike_of_build h.topology h.same hb hb'
  by_cases hprot' : x ∈ p'.protected_nodes
  · -- it is an obligation that may be contained, so the obligations are the same
    have hallow := (build_wellFormed hb').containable_protected x hprot'
    rw [hx] at hallow
    rcases h.obligations with heq | ⟨hdenied, -⟩
    · have hprot := (protected_nodes_iff h.topology heq hb hb' x).mp hprot'
      rw [(build_wellFormed hb).containable_protected x hprot, ← halike.allow_protected_inclusion,
        ← hallow]
    · rw [halike.allow_protected_inclusion, (build_copied hb).2.2.1, hdenied] at hallow
      exact absurd hallow (by simp)
  · have hprot : x ∉ p.protected_nodes := fun hin => hprot' (h.protected_nodes hb hb' x hin)
    rw [← isContainable_eq h.topology hforced hb hb' hprot hprot']
    exact hx

/-- An eligible source of the easier problem is eligible in the harder, unless it has become an
obligation. -/
theorem Harder.source_containable (h : Harder g g' spec spec')
    (hb : ContainmentProblem.build g spec = .ok p)
    (hb' : ContainmentProblem.build g' spec' = .ok p')
    (hdisjoint : spec'.protected_obligations = spec.protected_obligations ∨ p'.DisjointSources)
    {s : NodeIndex} (hs : s ∈ p.sources) (hc : p.isContainable s = true) :
    p'.isContainable s = true := by
  have hforced : spec'.forced_ineligible = spec.forced_ineligible := by rw [h.same]
  have halike := alike_of_build h.topology h.same hb hb'
  by_cases hprot' : s ∈ p'.protected_nodes
  · rcases hdisjoint with heq | hdisjoint
    · have hprot := (protected_nodes_iff h.topology heq hb hb' s).mp hprot'
      rw [(build_wellFormed hb').containable_protected s hprot', halike.allow_protected_inclusion,
        ← (build_wellFormed hb).containable_protected s hprot]
      exact hc
    · exact absurd hprot' (hdisjoint s (h.sources hb hb' s hs))
  · have hprot : s ∉ p.protected_nodes := fun hin => hprot' (h.protected_nodes hb hb' s hin)
    rw [isContainable_eq h.topology hforced hb hb' hprot hprot']
    exact hc

/-- A set that separates the harder problem separates the easier. -/
theorem Harder.separates (h : Harder g g' spec spec')
    (hb : ContainmentProblem.build g spec = .ok p)
    (hb' : ContainmentProblem.build g' spec' = .ok p') {cut : List NodeIndex}
    (hsep : p'.Separates cut) : p.Separates cut := by
  intro path hwalk
  obtain ⟨s, hs, hhead⟩ := hwalk.head
  obtain ⟨x, hx, hlast⟩ := hwalk.last
  refine hsep path ⟨hwalk.chain.imp fun a b hab => ?_, ⟨s, h.sources hb hb' s hs, hhead⟩,
    ⟨x, h.protected_nodes hb hb' x hx, hlast⟩⟩
  rw [(build_copied hb').1]
  rw [(build_copied hb).1] at hab
  exact h.topology.conservative hab

/-- A set that the harder problem accepts is accepted by the easier. -/
theorem ContainmentProblem.Accepts.of_harder (h : Harder g g' spec spec')
    (hb : ContainmentProblem.build g spec = .ok p)
    (hb' : ContainmentProblem.build g' spec' = .ok p')
    (hdisjoint : spec'.protected_obligations = spec.protected_obligations ∨ p'.DisjointSources)
    {cut : List NodeIndex} (hacc : p'.Accepts cut) : p.Accepts cut := by
  have halike := alike_of_build h.topology h.same hb hb'
  refine ⟨?_, hacc.nodup, ?_, ?_, ?_, ?_, ?_, h.separates hb hb' hacc.separates⟩
  · rw [← halike.max_members]
    exact hacc.size_le
  · rw [← halike.nodeCount]
    exact hacc.lt
  · exact fun x hx => h.containable hb hb' (hacc.containable x hx)
  · intro x hx hprot
    have hin : x ∈ p.protected_nodes := by simpa [isProtected] using hprot
    rw [← halike.allow_protected_inclusion]
    exact hacc.allowed x hx (by simpa [isProtected] using h.protected_nodes hb hb' x hin)
  · rw [← halike.max_total_weight, ← halike.weight]
    exact hacc.weight_le
  · intro hreq s hs hc
    rw [← halike.require_source_inclusion] at hreq
    exact hacc.sources hreq s (h.sources hb hb' s hs)
      (h.source_containable hb hb' hdisjoint hs hc)

/-- A set that the harder problem accepts has the same objective in both. -/
theorem Harder.objectiveOf_eq (h : Harder g g' spec spec')
    (hb : ContainmentProblem.build g spec = .ok p)
    (hb' : ContainmentProblem.build g' spec' = .ok p') {cut : List NodeIndex}
    (hacc : p'.Accepts cut) : p'.objectiveOf cut = p.objectiveOf cut := by
  have halike := alike_of_build h.topology h.same hb hb'
  have hcount : cut.countP p'.isProtected = cut.countP p.isProtected := by
    refine List.countP_congr fun x hx => ?_
    simp only [isProtected, decide_eq_true_eq]
    rcases h.obligations with heq | ⟨hdenied, -⟩
    · exact protected_nodes_iff h.topology heq hb hb' x
    · -- no member is an obligation of the harder problem
      have hout : x ∉ p'.protected_nodes := by
        intro hin
        have hallow := hacc.allowed x hx (by simpa [isProtected] using hin)
        rw [halike.allow_protected_inclusion, (build_copied hb).2.2.1, hdenied] at hallow
        exact absurd hallow (by simp)
      exact ⟨fun hin => absurd hin hout,
        fun hin => absurd (h.protected_nodes hb hb' x hin) hout⟩
  rw [objectiveOf, objectiveOf, hcount, halike.weight, halike.resourceId]

end Harder

/-! ## What the exact search reads -/

/-- Two problems that the exact search cannot tell apart. -/
structure SameSearch (p p' : ContainmentProblem) : Prop extends Alike p p' where
  successors : p'.graph.conservativeSuccessors = p.graph.conservativeSuccessors
  sources : p'.sources = p.sources
  protected_nodes : p'.protected_nodes = p.protected_nodes
  containable : p'.containable = p.containable
  candidates : p'.candidates = p.candidates

namespace SameSearch

variable {p p' : ContainmentProblem}

/-- The obligations are noticed alike. -/
theorem isProtected (h : SameSearch p p') : p'.isProtected = p.isProtected := by
  funext node
  rw [ContainmentProblem.isProtected, ContainmentProblem.isProtected, h.protected_nodes]

/-- The sources are noticed alike. -/
theorem isSource (h : SameSearch p p') : p'.isSource = p.isSource := by
  funext node
  rw [ContainmentProblem.isSource, ContainmentProblem.isSource, h.sources]

/-- The eligible nodes are the same. -/
theorem isContainable (h : SameSearch p p') : p'.isContainable = p.isContainable := by
  funext node
  rw [ContainmentProblem.isContainable, ContainmentProblem.isContainable, h.containable]

/-- The residual paths are the same. -/
theorem shortestResidualPath (h : SameSearch p p') :
    Fcfn.shortestResidualPath p' = Fcfn.shortestResidualPath p := by
  funext blocked
  rw [Fcfn.shortestResidualPath, Fcfn.shortestResidualPath, h.successors, h.isProtected,
    h.isSource, h.nodeCount, h.sources]

/-- The mandatory members are the same. -/
theorem isMandatoryMember (h : SameSearch p p') :
    Fcfn.isMandatoryMember p' = Fcfn.isMandatoryMember p := by
  funext node
  rw [Fcfn.isMandatoryMember, Fcfn.isMandatoryMember, h.require_source_inclusion, h.isSource,
    h.isContainable]

/-- The lower bound is the same. -/
theorem disjointPathBound (h : SameSearch p p') (excluded : List NodeIndex) (rounds : ℕ)
    (blocked : List NodeIndex) (bound : ℕ) (checked : UInt64) :
    Fcfn.disjointPathBound p' excluded rounds blocked bound checked =
      Fcfn.disjointPathBound p excluded rounds blocked bound checked := by
  have hcheaper : cheaper p' excluded = cheaper p excluded := by
    funext cheapest node
    rw [cheaper, cheaper, h.isContainable, h.weight]
  induction rounds generalizing blocked bound checked with
  | zero => rfl
  | succ rounds ih =>
    rw [Fcfn.disjointPathBound, Fcfn.disjointPathBound]
    simp only [h.shortestResidualPath, hcheaper, h.isContainable, ih]

/-- The verifier decides alike. -/
theorem verifyCut (h : SameSearch p p') : Fcfn.verifyCut p' = Fcfn.verifyCut p := by
  have haccumulate : accumulateMember p' = accumulateMember p := by
    funext totals node
    rw [accumulateMember, accumulateMember, h.nodeCount, h.isContainable, h.isProtected,
      h.allow_protected_inclusion, h.weight]
  have hreaches : sourceReachesProtected p' = sourceReachesProtected p := by
    funext excluded
    rw [sourceReachesProtected, sourceReachesProtected, h.sources, h.successors, h.isProtected,
      h.nodeCount]
  funext members
  rw [Fcfn.verifyCut, Fcfn.verifyCut, h.max_members, haccumulate, h.max_total_weight,
    h.require_source_inclusion, h.sources, h.isContainable, hreaches, h.resourceId]

/-- Putting a node in is the same. -/
theorem includeNode (h : SameSearch p p') : ExactState.includeNode p' = ExactState.includeNode p := by
  funext s node
  rw [ExactState.includeNode, ExactState.includeNode, h.weight, h.isProtected]

/-- Taking a node out is the same. -/
theorem unincludeNode (h : SameSearch p p') :
    ExactState.unincludeNode p' = ExactState.unincludeNode p := by
  funext s node
  rw [ExactState.unincludeNode, ExactState.unincludeNode, h.weight, h.isProtected]

/-- Keeping a completed set is the same. -/
theorem recordLeaf (h : SameSearch p p') : ExactState.recordLeaf p' = ExactState.recordLeaf p := by
  have hbeats : ExactState.beats p' = ExactState.beats p := by
    funext objective best
    rcases best with - | ⟨_, best⟩
    · rfl
    · rw [ExactState.beats, ExactState.beats, h.minimize_protected_inclusions]
  funext s
  rw [ExactState.recordLeaf, ExactState.recordLeaf, h.verifyCut, hbeats]

/-- The bound step is the same. -/
theorem boundStep (h : SameSearch p p') : Fcfn.boundStep p' = Fcfn.boundStep p := by
  funext s
  simp only [Fcfn.boundStep, h.disjointPathBound, h.minimize_protected_inclusions]

/-- The branches are the same under the same search. -/
theorem branch (h : SameSearch p p') (search : ExactState → ExactState)
    (rest here : List NodeIndex) (s : ExactState) :
    Fcfn.branch p' search rest here s = Fcfn.branch p search rest here s := by
  induction rest generalizing here s with
  | nil => rfl
  | cons node rest ih =>
    rw [Fcfn.branch, Fcfn.branch]
    simp only [h.isContainable, h.includeNode, h.unincludeNode, h.isMandatoryMember, ih]

/-- The search is the same. -/
theorem search (h : SameSearch p p') (max_explored_nodes : UInt64) (fuel : ℕ) :
    Fcfn.search p' max_explored_nodes fuel = Fcfn.search p max_explored_nodes fuel := by
  induction fuel with
  | zero => rfl
  | succ fuel ih =>
    funext s
    rw [Fcfn.search, Fcfn.search]
    simp only [h.max_members, h.max_total_weight, h.shortestResidualPath, h.recordLeaf,
      h.isContainable, h.boundStep, h.branch, ih]

/-- The exact solver answers alike. -/
theorem solveExact (h : SameSearch p p') (budget : SolveBudget) :
    Fcfn.solveExact p' budget = Fcfn.solveExact p budget := by
  have hroot : rootState p' budget = rootState p budget := by
    rw [rootState, rootState, h.sources, h.isMandatoryMember, h.includeNode, h.candidates]
  rw [Fcfn.solveExact, Fcfn.solveExact, h.nodeCount, h.sources, h.protected_nodes, h.search, hroot]

end SameSearch

/-- Problems alike, with the same neighbours, sources and obligations and the same eligible nodes,
cannot be told apart: the rest is derived from these. -/
theorem SameSearch.of_flags {p p' : ContainmentProblem} (hp : p.WellFormed) (hp' : p'.WellFormed)
    (hrelevant : p.relevant = p.computeRelevant) (hrelevant' : p'.relevant = p'.computeRelevant)
    (halike : Alike p p')
    (hsuccessors : p'.graph.conservativeSuccessors = p.graph.conservativeSuccessors)
    (hpredecessors : p'.graph.conservativePredecessors = p.graph.conservativePredecessors)
    (hsources : p'.sources = p.sources) (hnodes : p'.protected_nodes = p.protected_nodes)
    (hflags : ∀ x, p'.isContainable x = p.isContainable x) : SameSearch p p' := by
  have hcontainable : p'.containable = p.containable := by
    have hlen : p'.containable.length = p.containable.length := by
      rw [hp.containable_length, hp'.containable_length, halike.nodeCount]
    refine List.ext_getElem hlen fun i hi' hi => ?_
    have hflag := hflags i
    simpa only [ContainmentProblem.isContainable, List.getD_eq_getElem?_getD,
      List.getElem?_eq_getElem hi', List.getElem?_eq_getElem hi, Option.getD_some] using hflag
  have hcandidates : p'.candidates = p.candidates := by
    have hisSource : p'.isSource = p.isSource := by
      funext x
      rw [ContainmentProblem.isSource, ContainmentProblem.isSource, hsources]
    have hfrontier : p'.frontier = p.frontier := by
      rw [hp.frontier_eq, hp'.frontier_eq, computeFrontier, computeFrontier, hsuccessors,
        halike.nodeCount, hsources]
    have hrelevant_eq : p'.relevant = p.relevant := by
      rw [hrelevant, hrelevant', computeRelevant, computeRelevant, hpredecessors, halike.nodeCount,
        hnodes]
    rw [hp.candidates_eq, hp'.candidates_eq, computeCandidates, computeCandidates,
      halike.nodeCount, hfrontier, hrelevant_eq, halike.require_source_inclusion, hisSource,
      funext hflags]
  exact ⟨halike, hsuccessors, hsources, hnodes, hcontainable, hcandidates⟩

/-- Confirming edges leaves the search as it is. -/
theorem SameSearch.of_confirmed {g g' : PropagationGraph} {spec : ContainmentInstanceSpec}
    {p p' : ContainmentProblem}
    (ht : Topology.Revised EdgeEvidence.Confirmed g.topology g'.topology)
    (hb : ContainmentProblem.build g spec = .ok p)
    (hb' : ContainmentProblem.build g' spec = .ok p') : SameSearch p p' := by
  have hp := build_wellFormed hb
  have hp' := build_wellFormed hb'
  have halike := alike_of_build ht rfl hb hb'
  have hg := (build_copied hb).1
  have hg' := (build_copied hb').1
  obtain ⟨hfind, is, his, hprotected⟩ := build_indices hb
  obtain ⟨hfind', is', his', hprotected'⟩ := build_indices hb'
  rw [ht.find_eq] at hfind' his'
  have hsources : p'.sources = p.sources :=
    List.map_injective_iff.mpr (Option.some_injective _) (hfind'.symm.trans hfind)
  have hnodes : p'.protected_nodes = p.protected_nodes := by
    rw [hprotected, hprotected',
      List.map_injective_iff.mpr (Option.some_injective _) (his'.symm.trans his)]
  have hsuccessors : p'.graph.conservativeSuccessors = p.graph.conservativeSuccessors := by
    rw [hg, hg']
    exact funext ht.conservativeSuccessors
  have hpredecessors : p'.graph.conservativePredecessors = p.graph.conservativePredecessors := by
    rw [hg, hg']
    exact funext ht.conservativePredecessors
  refine .of_flags hp hp' (relevant_of_build hb) (relevant_of_build hb') halike hsuccessors
    hpredecessors hsources hnodes fun x => ?_
  by_cases hx : x ∈ p.protected_nodes
  · rw [hp.containable_protected x hx, hp'.containable_protected x (hnodes ▸ hx),
      halike.allow_protected_inclusion]
  · exact isContainable_eq ht rfl hb hb' hx (hnodes ▸ hx)

/-! ## The answers -/

/-- A status that settles the problem. -/
def SolveStatus.Conclusive (status : SolveStatus) : Prop :=
  status = .provenOptimal ∨ status = .provenInfeasible

/-- A harder instance is no easier to contain: what the verifier accepts for it is accepted for the
easier one, and where the exact solver settles both, the easier one being infeasible makes the
harder one so, and the harder one's optimum is not less. Confirming unknown edges changes no
answer. A source that is an obligation is not noticed on residual paths, so with one the solver's
answer may depend on the order of the sources alone. -/
theorem harder_never_easier {g g' : PropagationGraph} {spec spec' : ContainmentInstanceSpec}
    {p p' : ContainmentProblem} (hb : ContainmentProblem.build g spec = .ok p)
    (hb' : ContainmentProblem.build g' spec' = .ok p') :
    (Harder g g' spec spec' →
      (spec'.protected_obligations = spec.protected_obligations ∨ p'.DisjointSources →
        ∀ cut, (verifyCut p' cut).isOk = true → (verifyCut p cut).isOk = true) ∧
      (p.DisjointSources → p'.DisjointSources → ∀ budget budget',
        (solveExact p budget).status.Conclusive → (solveExact p' budget').status.Conclusive →
        ((solveExact p budget).status = .provenInfeasible →
          (solveExact p' budget').status = .provenInfeasible) ∧
        ((solveExact p budget).status = .provenOptimal →
          (solveExact p' budget').status = .provenOptimal →
          objectiveLess (solveExact p' budget').objective (solveExact p budget).objective
            p.minimize_protected_inclusions = false))) ∧
    (Topology.Revised EdgeEvidence.Confirmed g.topology g'.topology → spec' = spec → ∀ budget,
      (solveExact p' budget).status = (solveExact p budget).status ∧
      (solveExact p' budget).members = (solveExact p budget).members ∧
      (solveExact p' budget).objective = (solveExact p budget).objective) := by
  have hp := build_wellFormed hb
  have hp' := build_wellFormed hb'
  refine ⟨fun h => ⟨fun hdisjoint cut hok => ?_, fun hd hd' budget budget' hc hc' => ?_⟩, ?_⟩
  · have hacc' := ((verifyCut_eq_ok_iff hp').mp (eq_ok_value hok)).1
    have hacc := hacc'.of_harder h hb hb' hdisjoint
    rw [(verifyCut_eq_ok_iff hp).mpr ⟨hacc, rfl⟩]
    rfl
  · have hspec := solveExact_spec hp budget
    have hspec' := solveExact_spec hp' budget'
    -- what the harder problem's answer is worth in the easier problem
    have hanswer : (solveExact p' budget').status = .provenOptimal →
        p.Accepts (solveExact p' budget').members ∧
          p.Traceable (solveExact p' budget').members ∧
          (solveExact p' budget').objective = p.objectiveOf (solveExact p' budget').members := by
      intro hopt'
      obtain ⟨hacc', hobjective, -⟩ := hspec'.found (Or.inl hopt')
      have hacc := hacc'.of_harder h hb hb' (Or.inr hd')
      exact ⟨hacc, hacc.traceable hp hd, hobjective.trans (h.objectiveOf_eq hb hb' hacc')⟩
    constructor
    · intro hinfeasible
      refine hc'.resolve_left fun hopt' => ?_
      obtain ⟨hacc, htraceable, -⟩ := hanswer hopt'
      exact hspec.infeasible hinfeasible _ hacc htraceable
    · intro hopt hopt'
      obtain ⟨hacc, htraceable, hobjective'⟩ := hanswer hopt'
      obtain ⟨hfound, hobjective, -⟩ := hspec.found (Or.inl hopt)
      rw [Bool.eq_false_iff, Ne, objectiveLess_iff, hobjective', not_lt]
      rcases hspec.optimal hopt _ hacc htraceable with hperm | hless
      · rw [hobjective, objectiveOf_perm hacc.nodup hperm]
      · exact (objectiveLess_iff.mp hless).le
  · rintro ht rfl budget
    rw [(SameSearch.of_confirmed ht hb hb').solveExact budget]
    exact ⟨rfl, rfl, rfl⟩

/-- The topology of the chain with the edge to the obligation refuted. -/
def severedChain : Topology :=
  value (Topology.build { chainSpec with
    edges := [⟨bytesOf "s", bytesOf "a", .proven, 1⟩, ⟨bytesOf "a", bytesOf "p", .refuted, 1⟩] })
    (by decide +kernel)

/-- The problem of the severed chain with room for three members. -/
def severedProblem : ContainmentProblem :=
  value (ContainmentProblem.build (.build severedChain) (chainInstance false 9)) (by decide +kernel)

/-- The chain is a harder instance than the severed chain. -/
theorem harder_severedChain :
    Harder (.build severedChain) (.build chain) (chainInstance false 9) (chainInstance false 9) where
  topology := by
    refine ⟨by decide +kernel, ?_⟩
    have hedges : severedChain.edges = [⟨2, 0, .proven, 1⟩, ⟨0, 1, .refuted, 1⟩].reverse := by
      decide +kernel
    have hedges' : chain.edges = [⟨2, 0, .proven, 1⟩, ⟨0, 1, .unknown, 1⟩].reverse := by
      decide +kernel
    change List.Forall₂ _ severedChain.edges chain.edges
    rw [hedges, hedges']
    exact .cons ⟨rfl, rfl, Or.inr rfl⟩ (.cons ⟨rfl, rfl, Or.inl rfl⟩ .nil)
  failure_sources := fun _ hr => hr
  obligations := Or.inl rfl
  same := rfl

/-- What is accepted for the chain is accepted for the severed chain, and the optimum of the chain
is not less. -/
theorem harder_never_easier_chain :
    (∀ cut, (verifyCut chainProblem cut).isOk = true → (verifyCut severedProblem cut).isOk = true) ∧
      objectiveLess (solveExact chainProblem ⟨1000, 1000⟩).objective
        (solveExact severedProblem ⟨1000, 1000⟩).objective
        severedProblem.minimize_protected_inclusions = false :=
  have h := (harder_never_easier (eq_ok_value _) (eq_ok_value _)).1 harder_severedChain
  have hs : (solveExact severedProblem ⟨1000, 1000⟩).status = .provenOptimal := by decide +kernel
  have hc : (solveExact chainProblem ⟨1000, 1000⟩).status = .provenOptimal := by decide +kernel
  have hd : severedProblem.DisjointSources := by unfold DisjointSources; decide +kernel
  have hd' : chainProblem.DisjointSources := by unfold DisjointSources; decide +kernel
  ⟨h.1 (Or.inl rfl), (h.2 hd hd' _ _ (Or.inl hs) (Or.inl hc)).2 hs hc⟩

end Fcfn
