import Fcfn.Engine.Instances
import Fcfn.Engine.Monotone
import Fcfn.Engine.Planner

/-!
# Necessity

A node is tested by solving the instance with the node barred as well. For a node that is no
obligation the rebuilt problem accepts exactly the sets of the problem without the node
(`Without.accepts_iff`), so its status says what it should. The bar of an obligation does not
survive the rebuild when the policy lets obligations be contained: the rebuilt problem is then the
problem itself (`Without.sameSearch`), and any set found makes the obligation not necessary.
`necessity_exact_iff` says when that does no harm. -/

namespace Fcfn

open Words Sorted Walks ContainmentProblem

/-- Test each containable candidate for necessity. -/
def analyzeNecessityExhaustive (p : ContainmentProblem) (budget : SolveBudget) : NecessityResult :=
  (sortBy id (p.candidates.filter p.isContainable)).foldl (analyzeNode p budget) {}

/-! ## The rebuilt problem -/

section Rebuild

variable {graph : PropagationGraph} {spec : ContainmentInstanceSpec} {p : ContainmentProblem}

/-- The barred nodes are the indices of the forced-ineligible resources. -/
theorem mem_barred_of_build (h : ContainmentProblem.build graph spec = .ok p) {i : NodeIndex} :
    i ∈ p.barred_nodes ↔ ∃ r ∈ spec.forced_ineligible, graph.topology.find r = some i := by
  -- the fold that bars appends, and the later stages of the build leave what it barred
  have hbars : ∀ (ids : List ResourceId) (start q : ContainmentProblem),
      ids.foldlM bar start = .ok q → (i ∈ q.barred_nodes ↔ i ∈ start.barred_nodes ∨
        ∃ r ∈ ids, start.graph.topology.find r = some i) := by
    intro ids
    induction ids with
    | nil =>
      intro start q hq
      rw [List.foldlM_nil, pure_eq_ok] at hq
      simp [hq]
    | cons id ids ih =>
      intro start q hq
      rw [List.foldlM_cons, bind_eq_ok] at hq
      obtain ⟨next, hnext, hrest⟩ := hq
      obtain ⟨j, hj, rfl⟩ := bar_spec hnext
      rw [ih _ q hrest]
      simp only [List.mem_append, List.mem_cons, List.not_mem_nil, false_or, exists_eq_or_imp, hj,
        Option.some.injEq, or_assoc, eq_comm (a := i)]
  obtain ⟨-, -, -, p₁, p₂, p₃, h₁, h₂, h₃, rfl⟩ := build_eq_ok h
  obtain ⟨is, -, rfl⟩ := addSources_spec h₂
  have hlen₁ := ((Indexed.start graph spec).bars rfl h₁).containable_length
  obtain ⟨js, -, c, -, rfl⟩ := addObligations_spec h₃ hlen₁
  have hmem := hbars _ _ _ h₁
  simp only [start, List.not_mem_nil, false_or] at hmem
  simp only [derive, sortProtected, sortBarred, List.mem_dedup, mem_sortBy]
  exact hmem

/-- The obligations of a built problem ascend. -/
theorem ascending_protected (h : ContainmentProblem.build graph spec = .ok p) :
    Ascending id p.protected_nodes := by
  obtain ⟨-, is, -, hsorted⟩ := build_indices h
  have hnd := (build_wellFormed h).protected_nodup
  rw [hsorted] at hnd ⊢
  exact ascending_of_isChain pairwise_sortBy (List.Pairwise.isChain hnd)

/-- What rebuilding a problem with one more node barred gives: the same problem but for the bar. -/
structure Without (p : ContainmentProblem) (x : NodeIndex) (q : ContainmentProblem) : Prop where
  wellFormed : q.WellFormed
  graph : q.graph = p.graph
  sources : q.sources = p.sources
  protected_nodes : q.protected_nodes = p.protected_nodes
  relevant : q.relevant = q.computeRelevant
  require_source_inclusion : q.require_source_inclusion = p.require_source_inclusion
  allow_protected_inclusion : q.allow_protected_inclusion = p.allow_protected_inclusion
  minimize_protected_inclusions :
    q.minimize_protected_inclusions = p.minimize_protected_inclusions
  max_total_weight : q.max_total_weight = p.max_total_weight
  max_members : q.max_members = p.max_members
  isContainable : ∀ y, q.isContainable y =
    if y ∈ p.protected_nodes then p.isContainable y else p.isContainable y && decide (y ≠ x)

/-- The flag of a node of a built problem that is no obligation. -/
theorem isContainable_iff_of_build (h : ContainmentProblem.build graph spec = .ok p) {i : NodeIndex}
    (hi : i ∉ p.protected_nodes) :
    p.isContainable i = ((graph.topology.node i).containable && decide (i ∉ p.barred_nodes)) := by
  have hbarred : (∀ r ∈ spec.forced_ineligible, graph.topology.find r ≠ some i) ↔
      i ∉ p.barred_nodes := by
    rw [mem_barred_of_build h]
    push Not
    rfl
  rw [isContainable_of_build h hi, getD_barredFlags, decide_eq_decide.mpr hbarred]

/-- A built problem can be rebuilt without a node. -/
theorem exists_without (h : ContainmentProblem.build graph spec = .ok p) {x : NodeIndex}
    (hx : x < p.nodeCount) :
    ∃ q, ContainmentProblem.build p.graph (specWithout p x) = .ok q ∧ Without p x q := by
  have hp := build_wellFormed h
  have hcopied := build_copied h
  obtain ⟨hgraph, hrequire, hallow, hminimize, hweight, hmembers⟩ := hcopied
  have hchecked := build_succeeds_iff.mp ⟨p, h⟩
  obtain ⟨hsources, is, his, hsorted⟩ := build_indices h
  have hfind : ∀ y < p.nodeCount, p.graph.topology.find (p.resourceId y) = some y :=
    fun y hy => p.graph.topology.find_node hy
  -- the identities of the nodes are found at the nodes again, so the rebuild sees the same indices
  have hindices : ∀ nodes : List NodeIndex, (∀ y ∈ nodes, y < p.nodeCount) →
      (nodes.map p.resourceId).map p.graph.topology.find = nodes.map some := by
    intro nodes hlt
    rw [List.map_map]
    exact List.map_congr_left fun y hy => hfind y (hlt y hy)
  have hbarredlt : ∀ y ∈ p.barred_nodes, y < p.nodeCount := by
    intro y hy
    obtain ⟨r, -, hr⟩ := (mem_barred_of_build h).mp hy
    rw [nodeCount, hgraph]
    exact find_lt hr
  have hsourcesIdx := hindices p.sources hp.sources_lt
  have hprotectedIdx := hindices p.protected_nodes hp.protected_lt
  have hmembers' : (specWithout p x).max_members = spec.max_members := by
    simp [specWithout, hmembers]
  have hweight' : (specWithout p x).max_total_weight = spec.max_total_weight := by
    simp [specWithout, hweight]
  have hlenSources : p.sources.length = spec.failure_sources.length := by
    have hlen := congrArg List.length hsources
    rw [List.length_map, List.length_map] at hlen
    exact hlen.symm
  have hlenProtected : p.protected_nodes.length = spec.protected_obligations.length := by
    have hlen := congrArg List.length his
    rw [List.length_map, List.length_map] at hlen
    rw [hsorted, length_sortBy, hlen]
  have hknown : ∀ y < p.nodeCount, Known p.graph (p.resourceId y) :=
    fun y hy => known_iff.mpr ⟨y, hfind y hy⟩
  -- every check passed once, and the node that is barred is one of the graph
  obtain ⟨q, hq⟩ : ∃ q, ContainmentProblem.build p.graph (specWithout p x) = .ok q := by
    refine build_succeeds_iff.mpr ⟨?_, ?_, ?_, ?_, ?_, ?_, ?_, ?_, ?_, ?_, ?_⟩
    · simpa [specWithout] using hp.sources_ne_nil
    · simpa [specWithout] using hp.protected_ne_nil
    · simpa [specWithout, hlenSources] using hchecked.sources_le
    · simpa [specWithout, hlenProtected] using hchecked.obligations_le
    · exact hmembers' ▸ hchecked.members_ne_zero
    · exact hmembers' ▸ hchecked.members_le
    · intro r hr
      rcases List.mem_append.mp hr with hr | hr
      · obtain ⟨y, hy, rfl⟩ := List.mem_map.mp hr
        exact hknown y (hbarredlt y hy)
      · exact List.mem_singleton.mp hr ▸ hknown x hx
    · exact known_of_indices hsourcesIdx
    · exact known_of_indices hprotectedIdx
    · exact (nodup_indices hsourcesIdx).mp hp.sources_nodup
    · exact (nodup_indices hprotectedIdx).mp hp.protected_nodup
  have hqp := build_wellFormed hq
  obtain ⟨hgraph', hrequire', hallow', hminimize', hweight'', hmembers''⟩ := build_copied hq
  obtain ⟨hsources', js, hjs, hsorted'⟩ := build_indices hq
  have hsameSources : q.sources = p.sources :=
    List.map_injective_iff.mpr (Option.some_injective _) (hsources'.symm.trans hsourcesIdx)
  have hjs' : js = p.protected_nodes :=
    List.map_injective_iff.mpr (Option.some_injective _) (hjs.symm.trans hprotectedIdx)
  -- the obligations were sorted by the first build, so the second leaves their order
  have hsameProtected : q.protected_nodes = p.protected_nodes := by
    rw [hsorted', hjs', sortBy_eq_self (ascending_protected h)]
  refine ⟨q, hq, hqp, hgraph', hsameSources, hsameProtected, relevant_of_build hq, hrequire',
    hallow', hminimize', ?_, ?_, fun y => ?_⟩
  · rw [hweight'', hweight', hweight]
  · rw [hmembers'', hmembers', hmembers]
  · split
    -- an obligation is containable by policy alone, whatever is barred
    · rename_i hy
      rw [hqp.containable_protected y (hsameProtected ▸ hy), hp.containable_protected y hy, hallow']
      rfl
    · rename_i hy
      have hbarred : y ∈ q.barred_nodes ↔ y ∈ p.barred_nodes ∨ y = x := by
        rw [mem_barred_of_build hq]
        simp only [specWithout, List.mem_append, List.mem_map, List.mem_singleton]
        constructor
        · rintro ⟨r, ⟨z, hz, rfl⟩ | rfl, hr⟩
          · rw [hfind z (hbarredlt z hz)] at hr
            exact Or.inl (Option.some.inj hr ▸ hz)
          · rw [hfind x hx] at hr
            exact Or.inr (Option.some.inj hr).symm
        · rintro (hz | rfl)
          · exact ⟨_, Or.inl ⟨y, hz, rfl⟩, hfind y (hbarredlt y hz)⟩
          · exact ⟨_, Or.inr rfl, hfind y hx⟩
      rw [isContainable_iff_of_build hq (hsameProtected ▸ hy), isContainable_iff_of_build h hy,
        hgraph, Bool.and_assoc, ← Bool.decide_and]
      congr 1
      rw [decide_eq_decide, hbarred, not_or]

end Rebuild

/-! ## What the rebuilt problem says -/

section Meaning

variable {p q : ContainmentProblem} {x : NodeIndex} {cut : List NodeIndex}

/-- Without a node that is no obligation and that policy does not require, exactly the sets without
it are accepted. -/
theorem Without.accepts_iff (h : Without p x q) (hx : x ∉ p.protected_nodes)
    (hfree : (p.require_source_inclusion && p.isSource x) = false) :
    q.Accepts cut ↔ p.Accepts cut ∧ x ∉ cut := by
  have hcount : q.nodeCount = p.nodeCount := by rw [nodeCount, nodeCount, h.graph]
  have hweight : q.weight = p.weight := by
    funext y
    rw [weight, weight, h.graph]
  have hprotected : ∀ y, q.isProtected y = p.isProtected y := by
    intro y
    rw [isProtected, isProtected, h.protected_nodes]
  have hseparates : q.Separates cut ↔ p.Separates cut := by
    rw [Separates, Separates, h.graph, h.sources, h.protected_nodes]
  have hflag : ∀ y, q.isContainable y = true ↔ p.isContainable y = true ∧ y ≠ x := by
    intro y
    rw [h.isContainable]
    split
    · rename_i hy
      have hne : y ≠ x := by
        rintro rfl
        exact hx hy
      simp [hne]
    · rw [Bool.and_eq_true, decide_eq_true_eq]
  -- a source that policy requires may not be left out, so the node is none
  have hsource : p.require_source_inclusion = true → ∀ s ∈ p.sources, s ≠ x := by
    intro hrequire s hs heq
    subst heq
    simp [hrequire, isSource, hs] at hfree
  constructor
  · intro hacc
    refine ⟨⟨h.max_members ▸ hacc.size_le, hacc.nodup, hcount ▸ hacc.lt,
      fun y hy => ((hflag y).mp (hacc.containable y hy)).1, fun y hy hprot => ?_, ?_, ?_,
      hseparates.mp hacc.separates⟩, fun hin => ((hflag x).mp (hacc.containable x hin)).2 rfl⟩
    · rw [← h.allow_protected_inclusion]
      exact hacc.allowed y hy ((hprotected y).trans hprot)
    · rw [← h.max_total_weight, ← hweight]
      exact hacc.weight_le
    · intro hrequire s hs hcont
      exact hacc.sources (h.require_source_inclusion.trans hrequire) s (h.sources.symm ▸ hs)
        ((hflag s).mpr ⟨hcont, hsource hrequire s hs⟩)
  · rintro ⟨hacc, hout⟩
    refine ⟨h.max_members.symm ▸ hacc.size_le, hacc.nodup, hcount.symm ▸ hacc.lt,
      fun y hy => (hflag y).mpr ⟨hacc.containable y hy, fun heq => hout (heq ▸ hy)⟩,
      fun y hy hprot => ?_, ?_, ?_, hseparates.mpr hacc.separates⟩
    · rw [h.allow_protected_inclusion]
      exact hacc.allowed y hy ((hprotected y).symm.trans hprot)
    · rw [h.max_total_weight, hweight]
      exact hacc.weight_le
    · intro hrequire s hs hcont
      exact hacc.sources (h.require_source_inclusion.symm.trans hrequire) s (h.sources ▸ hs)
        ((hflag s).mp hcont).1

/-- Rebuilding without an obligation gives a problem that the search cannot tell from the
problem. -/
theorem Without.sameSearch (h : Without p x q) (hp : p.WellFormed)
    (hrelevant : p.relevant = p.computeRelevant) (hx : x ∈ p.protected_nodes) : SameSearch p q := by
  refine .of_flags hp h.wellFormed hrelevant h.relevant ⟨?_, h.require_source_inclusion,
    h.allow_protected_inclusion, h.minimize_protected_inclusions, h.max_total_weight,
    h.max_members⟩ ?_ ?_ h.sources h.protected_nodes fun y => ?_
  · rw [h.graph]
  · rw [h.graph]
  · rw [h.graph]
  · rw [h.isContainable]
    split
    · rfl
    · rename_i hy
      have hne : y ≠ x := by
        rintro rfl
        exact hy hx
      simp [hne]

end Meaning

/-! ## The analysis -/

/-- A set was found. -/
def SolveStatus.Found (status : SolveStatus) : Prop :=
  status = .provenOptimal ∨ status = .feasibleNotProvenOptimal

/-- The analysis puts the node among the necessary ones. -/
def CalledNecessary (p : ContainmentProblem) (budget : SolveBudget) (x : NodeIndex) : Prop :=
  p.isContainable x = true ∧ ((p.require_source_inclusion && p.isSource x) = true ∨
    (statusWithout p x budget {}).1 = .provenInfeasible)

/-- The analysis puts the node among those that are not necessary. -/
def CalledUnnecessary (p : ContainmentProblem) (budget : SolveBudget) (x : NodeIndex) : Prop :=
  p.isContainable x = false ∨ (p.require_source_inclusion && p.isSource x) = false ∧
    (statusWithout p x budget {}).1.Found

section Analysis

variable {p : ContainmentProblem} {budget : SolveBudget}

/-- The counters do not decide the status. -/
theorem statusWithout_fst (x : NodeIndex) (counters : SolveCounters) :
    (statusWithout p x budget counters).1 = (statusWithout p x budget {}).1 := by
  unfold statusWithout
  split <;> rfl

/-- What testing one node adds to the lists. -/
theorem analyzeNode_spec (result : NecessityResult) (node x : NodeIndex) :
    (x ∈ (analyzeNode p budget result node).proven_necessary ↔
      x ∈ result.proven_necessary ∨ x = node ∧ CalledNecessary p budget node) ∧
    (x ∈ (analyzeNode p budget result node).not_necessary ↔
      x ∈ result.not_necessary ∨ x = node ∧ CalledUnnecessary p budget node) := by
  unfold analyzeNode CalledNecessary CalledUnnecessary
  cases hcont : p.isContainable node with
  | false => simp
  | true =>
    rw [if_neg (by simp)]
    cases hmandatory : p.require_source_inclusion && p.isSource node with
    | true => simp
    | false =>
      rw [if_neg Bool.false_ne_true, ← statusWithout_fst node result.counters]
      generalize statusWithout p node budget result.counters = r
      obtain ⟨status, counters⟩ := r
      cases status with
      | provenOptimal => simp [SolveStatus.Found]
      | feasibleNotProvenOptimal => simp [SolveStatus.Found]
      | provenInfeasible => simp [SolveStatus.Found]
      | limitReachedNoSolution => simp [SolveStatus.Found]
      | invalidProblem => simp [SolveStatus.Found]

/-- What testing a list of nodes adds to the lists. -/
theorem foldl_analyzeNode_spec (nodes : List NodeIndex) (result : NecessityResult) (x : NodeIndex) :
    (x ∈ (nodes.foldl (analyzeNode p budget) result).proven_necessary ↔
      x ∈ result.proven_necessary ∨ x ∈ nodes ∧ CalledNecessary p budget x) ∧
    (x ∈ (nodes.foldl (analyzeNode p budget) result).not_necessary ↔
      x ∈ result.not_necessary ∨ x ∈ nodes ∧ CalledUnnecessary p budget x) := by
  induction nodes generalizing result with
  | nil => simp
  | cons node nodes ih =>
    -- a list only grows, so a node is in it from before or by its own test
    obtain ⟨hnecessary, hunnecessary⟩ := ih (analyzeNode p budget result node)
    obtain ⟨hstep, hstep'⟩ := @analyzeNode_spec p budget result node x
    rw [List.foldl_cons, hnecessary, hunnecessary, hstep, hstep', List.mem_cons]
    constructor
    · constructor
      · rintro ((h | ⟨rfl, h⟩) | ⟨hx, h⟩)
        · exact Or.inl h
        · exact Or.inr ⟨Or.inl rfl, h⟩
        · exact Or.inr ⟨Or.inr hx, h⟩
      · rintro (h | ⟨rfl | hx, h⟩)
        · exact Or.inl (Or.inl h)
        · exact Or.inl (Or.inr ⟨rfl, h⟩)
        · exact Or.inr ⟨hx, h⟩
    · constructor
      · rintro ((h | ⟨rfl, h⟩) | ⟨hx, h⟩)
        · exact Or.inl h
        · exact Or.inr ⟨Or.inl rfl, h⟩
        · exact Or.inr ⟨Or.inr hx, h⟩
      · rintro (h | ⟨rfl | hx, h⟩)
        · exact Or.inl (Or.inl h)
        · exact Or.inl (Or.inr ⟨rfl, h⟩)
        · exact Or.inr ⟨hx, h⟩

end Analysis

/-- The lists say what they should: a necessary node is in every accepted set, and a containable
node that is not necessary is missing from some accepted set. -/
structure NecessityExact (p : ContainmentProblem) (result : NecessityResult) : Prop where
  necessary : ∀ x ∈ result.proven_necessary, ∀ cut objective,
    verifyCut p cut = .ok objective → x ∈ cut
  unnecessary : ∀ x ∈ result.not_necessary, p.isContainable x = true →
    ∃ cut objective, verifyCut p cut = .ok objective ∧ x ∉ cut

/-- No obligation among the nodes is in every accepted set while policy lets it be contained and the
exact solver finds a set on the budget. -/
def ObligationsSpared (p : ContainmentProblem) (budget : SolveBudget) (nodes : List NodeIndex) :
    Prop :=
  ∀ x ∈ nodes, x ∈ p.protected_nodes → p.allow_protected_inclusion = true →
    (solveExact p budget).status.Found →
      ∃ cut objective, verifyCut p cut = .ok objective ∧ x ∉ cut

/-- What the analysis calls a node is right, unless the node is an obligation that the rebuild makes
containable again. -/
theorem called_spec {graph : PropagationGraph} {spec : ContainmentInstanceSpec}
    {p : ContainmentProblem} (hbuild : ContainmentProblem.build graph spec = .ok p)
    (hdisjoint : ∀ s ∈ p.sources, s ∉ p.protected_nodes) (budget : SolveBudget) {x : NodeIndex}
    (hcont : p.isContainable x = true) :
    (CalledNecessary p budget x → ∀ cut, p.Accepts cut → x ∈ cut) ∧
    (x ∉ p.protected_nodes → CalledUnnecessary p budget x → ∃ cut, p.Accepts cut ∧ x ∉ cut) ∧
    (x ∈ p.protected_nodes →
      (CalledUnnecessary p budget x ↔ (solveExact p budget).status.Found)) := by
  have hp := build_wellFormed hbuild
  have hlt : x < p.nodeCount := by
    by_contra hge
    rw [isContainable, List.getD_eq_getElem?_getD, List.getElem?_eq_none
      (hp.containable_length ▸ not_lt.mp hge)] at hcont
    exact absurd hcont Bool.false_ne_true
  obtain ⟨q, hq, hwithout⟩ := exists_without hbuild hlt
  have hstatus : (statusWithout p x budget {}).1 = (solveExact q budget).status := by
    unfold statusWithout
    rw [hq]
  have hqdisjoint : ∀ s ∈ q.sources, s ∉ q.protected_nodes := by
    rw [hwithout.sources, hwithout.protected_nodes]
    exact hdisjoint
  have hspec := solveExact_spec hwithout.wellFormed budget
  -- a search that is infeasible has no accepted set to offer, since every one is traceable
  have hnone : (solveExact q budget).status = .provenInfeasible → ∀ cut, ¬ q.Accepts cut :=
    fun hst cut hcut => hspec.infeasible hst cut hcut (hcut.traceable hwithout.wellFormed hqdisjoint)
  -- an obligation is no source, so policy does not require it
  have hfree : x ∈ p.protected_nodes → (p.require_source_inclusion && p.isSource x) = false := by
    intro hx
    have hsource : p.isSource x = false := decide_eq_false fun hs => hdisjoint x hs hx
    rw [hsource, Bool.and_false]
  refine ⟨?_, ?_, ?_⟩
  · rintro ⟨-, hmandatory | hinfeasible⟩ cut hcut
    · refine hcut.mandatory ?_
      rw [isMandatoryMember, hmandatory, hcont]
      rfl
    · rw [hstatus] at hinfeasible
      by_cases hx : x ∈ p.protected_nodes
      · -- the problem itself is infeasible
        rw [(hwithout.sameSearch hp (relevant_of_build hbuild) hx).solveExact budget] at hinfeasible
        exact absurd (hcut.traceable hp hdisjoint)
          ((solveExact_spec hp budget).infeasible hinfeasible cut hcut)
      · cases hfree' : p.require_source_inclusion && p.isSource x with
        | true =>
          refine hcut.mandatory ?_
          rw [isMandatoryMember, hfree', hcont]
          rfl
        -- a set without the node would be accepted by the rebuild
        | false =>
          by_contra hout
          exact hnone hinfeasible cut ((hwithout.accepts_iff hx hfree').mpr ⟨hcut, hout⟩)
  · rintro hx (hfalse | ⟨hfree', hfound⟩)
    · exact absurd hcont (by simp [hfalse])
    · rw [hstatus] at hfound
      exact ⟨_, (hwithout.accepts_iff hx hfree').mp (hspec.found hfound).1⟩
  · intro hx
    unfold CalledUnnecessary
    rw [hstatus, (hwithout.sameSearch hp (relevant_of_build hbuild) hx).solveExact budget]
    simp [hcont, hfree hx]

/-- The results of testing nodes are exact when no obligation among them is called unnecessary
wrongly. -/
theorem necessityExact_iff {graph : PropagationGraph} {spec : ContainmentInstanceSpec}
    {p : ContainmentProblem} (hbuild : ContainmentProblem.build graph spec = .ok p)
    (hdisjoint : ∀ s ∈ p.sources, s ∉ p.protected_nodes) (budget : SolveBudget)
    (nodes : List NodeIndex) :
    NecessityExact p (nodes.foldl (analyzeNode p budget) {}) ↔
      ObligationsSpared p budget nodes := by
  have hp := build_wellFormed hbuild
  have hlists := fun x => @foldl_analyzeNode_spec p budget nodes {} x
  simp only [List.not_mem_nil, false_or] at hlists
  constructor
  · intro hexact x hx hprot hallow hfound
    have hcont : p.isContainable x = true := (hp.containable_protected x hprot).trans hallow
    have hcalled := ((called_spec hbuild hdisjoint budget hcont).2.2 hprot).mpr hfound
    exact hexact.unnecessary x ((hlists x).2.mpr ⟨hx, hcalled⟩) hcont
  · intro hspared
    refine ⟨fun x hx cut objective hcut => ?_, fun x hx hcont => ?_⟩
    · obtain ⟨-, hcalled⟩ := (hlists x).1.mp hx
      exact (called_spec hbuild hdisjoint budget hcalled.1).1 hcalled cut
        ((verifyCut_eq_ok_iff hp).mp hcut).1
    · obtain ⟨hmem, hcalled⟩ := (hlists x).2.mp hx
      obtain ⟨-, hright, hobligation⟩ := called_spec hbuild hdisjoint budget hcont
      -- an obligation is the only node that the rebuild does not leave out
      by_cases hprot : x ∈ p.protected_nodes
      · exact hspared x hmem hprot ((hp.containable_protected x hprot).symm.trans hcont)
          ((hobligation hprot).mp hcalled)
      · obtain ⟨cut, hacc, hout⟩ := hright hprot hcalled
        exact ⟨cut, _, (verifyCut_eq_ok_iff hp).mpr ⟨hacc, rfl⟩, hout⟩

/-- The necessity analyses are exact exactly when no obligation they test is in every accepted set
while policy lets it be contained and the exact solver finds a set on the budget. -/
theorem necessity_exact_iff {graph : PropagationGraph} {spec : ContainmentInstanceSpec}
    {p : ContainmentProblem} (hbuild : ContainmentProblem.build graph spec = .ok p)
    (hdisjoint : ∀ s ∈ p.sources, s ∉ p.protected_nodes) (budget : SolveBudget) :
    (∀ members, NecessityExact p (analyzeNecessity p members budget) ↔
      ObligationsSpared p budget members) ∧
    (NecessityExact p (analyzeNecessityExhaustive p budget) ↔
      ObligationsSpared p budget p.candidates) := by
  have hp := build_wellFormed hbuild
  refine ⟨fun members => ?_, ?_⟩
  · rw [analyzeNecessity, necessityExact_iff hbuild hdisjoint budget, ObligationsSpared,
      ObligationsSpared]
    simp only [List.mem_dedup, mem_sortBy]
  · rw [analyzeNecessityExhaustive, necessityExact_iff hbuild hdisjoint budget]
    constructor
    · intro h x hx hprot hallow
      refine h x (mem_sortBy.mpr (List.mem_filter.mpr ⟨hx, ?_⟩)) hprot hallow
      exact (hp.containable_protected x hprot).trans hallow
    · exact fun h x hx => h x (List.mem_of_mem_filter (mem_sortBy.mp hx))

/-- The chain with nothing containable but its obligation, which policy allows. -/
def lastResort : Topology :=
  value (Topology.build ⟨1, [⟨bytesOf "s", false, 1, false, .complete⟩,
    ⟨bytesOf "p", false, 1, true, .complete⟩], [⟨bytesOf "s", bytesOf "p", .proven, 1⟩]⟩)
    (by decide +kernel)

/-- The problem in which the obligation is the only way out. -/
def lastResortProblem : ContainmentProblem :=
  value (ContainmentProblem.build (.build lastResort) (chainInstance true 9)) (by decide +kernel)

/-- The obligation that every accepted set contains is called unnecessary. -/
theorem necessity_not_exact :
    ContainmentProblem.build (.build lastResort) (chainInstance true 9) = .ok lastResortProblem ∧
      (∀ s ∈ lastResortProblem.sources, s ∉ lastResortProblem.protected_nodes) ∧
      ¬ NecessityExact lastResortProblem (analyzeNecessity lastResortProblem [0] ⟨1000, 1000⟩) := by
  refine ⟨eq_ok_value _, by decide +kernel, fun h => ?_⟩
  have hp : lastResortProblem.WellFormed := build_wellFormed (eq_ok_value _)
  have hmem : 0 ∈ (analyzeNecessity lastResortProblem [0] ⟨1000, 1000⟩).not_necessary := by
    decide +kernel
  obtain ⟨cut, objective, hcut, hout⟩ := h.unnecessary 0 hmem (by decide +kernel)
  have hacc := ((verifyCut_eq_ok_iff hp).mp hcut).1
  -- the only other node may not be contained
  have hnil : cut = [] := by
    refine List.eq_nil_iff_forall_not_mem.mpr fun y hy => ?_
    have hlt : y < 2 := hacc.lt y hy
    have hsource : lastResortProblem.isContainable 1 = false := by decide +kernel
    have hcont := hacc.containable y hy
    match y, hlt with
    | 0, _ => exact hout hy
    | 1, _ => exact absurd hcont (by rw [hsource]; exact Bool.false_ne_true)
  have hrefused : (verifyCut lastResortProblem []).isOk = false := by decide +kernel
  rw [← hnil, hcut] at hrefused
  exact absurd hrefused (by simp [Except.isOk, Except.toBool])

/-- The policy of the chain lets no obligation be contained, so its analyses are exact. -/
theorem necessity_exact_chain :
    NecessityExact chainProblem (analyzeNecessity chainProblem [0, 1, 2] ⟨1000, 1000⟩) :=
  ((necessity_exact_iff (eq_ok_value _) (by decide +kernel) ⟨1000, 1000⟩).1 [0, 1, 2]).mpr
    fun _ _ _ hallow => absurd hallow (by decide +kernel)

end Fcfn
