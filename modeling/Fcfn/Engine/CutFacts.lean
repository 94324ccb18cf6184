import Mathlib.Algebra.BigOperators.Group.List.Basic
import Fcfn.Engine.Cut

/-!
# What a built problem satisfies and what the verifier accepts

`ContainmentProblem.WellFormed` collects what `build` guarantees. On a well-formed problem the
verifier's breadth-first search decides disconnection (`sourceReachesProtected_eq_false`), and
`verifyCut` succeeds exactly on the sets that meet the hard constraints, `Accepts`, with the
objective `objectiveOf` (`verifyCut_eq_ok_iff`). -/

namespace Fcfn

open Sorted Walks

namespace ContainmentProblem

/-- What `build` guarantees of a problem. -/
structure WellFormed (p : ContainmentProblem) : Prop where
  sources_ne_nil : p.sources ≠ []
  sources_nodup : p.sources.Nodup
  sources_lt : ∀ s ∈ p.sources, s < p.nodeCount
  protected_ne_nil : p.protected_nodes ≠ []
  protected_nodup : p.protected_nodes.Nodup
  protected_lt : ∀ x ∈ p.protected_nodes, x < p.nodeCount
  containable_length : p.containable.length = p.nodeCount
  /-- An obligation is containable exactly when the policy allows it. -/
  containable_protected : ∀ x ∈ p.protected_nodes, p.isContainable x = p.allow_protected_inclusion
  uncontainable_eq : p.uncontainable_sources = p.sources.filter (fun s => !p.isContainable s)
  frontier_eq : p.frontier = p.computeFrontier
  candidates_eq : p.candidates = p.computeCandidates
  max_members_le : p.max_members ≤ kMaxBoundaryMembers
  max_total_weight_le : p.max_total_weight ≤ kMaxUInt64

/-! ## Building -/

section Building

variable {p q : ContainmentProblem} {resource : ResourceId}

/-- What the loops of `build` keep: the indices resolved so far are nodes, distinct within each
list, and the obligations have the policy's flag. -/
structure Indexed (p : ContainmentProblem) : Prop where
  sources_nodup : p.sources.Nodup
  sources_lt : ∀ s ∈ p.sources, s < p.nodeCount
  protected_nodup : p.protected_nodes.Nodup
  protected_lt : ∀ x ∈ p.protected_nodes, x < p.nodeCount
  containable_length : p.containable.length = p.nodeCount
  containable_protected : ∀ x ∈ p.protected_nodes, p.isContainable x = p.allow_protected_inclusion

/-- The data that `build` copies from its arguments. -/
def Copied (graph : PropagationGraph) (spec : ContainmentInstanceSpec) (p : ContainmentProblem) :
    Prop :=
  p.graph = graph ∧ p.require_source_inclusion = spec.require_source_inclusion ∧
    p.allow_protected_inclusion = spec.allow_protected_inclusion ∧
    p.minimize_protected_inclusions = spec.minimize_protected_inclusions ∧
    p.max_total_weight = spec.max_total_weight.toNat ∧ p.max_members = spec.max_members.toNat

/-- The index of a resource that is found is a node. -/
theorem find_lt {t : Topology} {i : NodeIndex} (h : t.find resource = some i) : i < t.nodeCount :=
  (findNode_eq_some h).1

/-- The node at the index of a resource that is found has its identity. -/
theorem find_id {t : Topology} {i : NodeIndex} (h : t.find resource = some i) : (t.node i).id = resource := by
  obtain ⟨hi, hid⟩ := findNode_eq_some h
  rw [Topology.node, List.getD_eq_getElem?_getD, List.getElem?_eq_getElem hi, Option.getD_some, hid]

/-- Flags other than the one that is written keep their value. -/
theorem getD_set {β : Type*} {l : List β} {i j : ℕ} {b d : β} (hi : i < l.length) :
    (l.set i b).getD j d = if i = j then b else l.getD j d := by
  rw [List.getD_eq_getElem?_getD, List.getElem?_set, List.getD_eq_getElem?_getD, if_pos hi]
  split <;> rfl

/-- Adding a failure source. -/
theorem addSource_spec (h : p.addSource resource = .ok q) :
    ∃ i, p.graph.topology.find resource = some i ∧ i ∉ p.sources ∧
      q = { p with sources := p.sources ++ [i] } := by
  rw [addSource] at h
  split at h
  · simp [fail] at h
  · rename_i i hi
    simp only [require_bind_eq_ok, pure_eq_ok, isSource, Bool.not_eq_true', decide_eq_false_iff_not]
      at h
    exact ⟨i, hi, h.1, h.2.2.symm⟩

/-- Adding a protected obligation. -/
theorem addObligation_spec (h : p.addObligation resource = .ok q) :
    ∃ i, p.graph.topology.find resource = some i ∧ i ∉ p.protected_nodes ∧
      q = { p with
        protected_nodes := p.protected_nodes ++ [i]
        containable := p.containable.set i p.allow_protected_inclusion } := by
  rw [addObligation] at h
  split at h
  · simp [fail] at h
  · rename_i i hi
    simp only [require_bind_eq_ok, pure_eq_ok, isProtected, Bool.not_eq_true',
      decide_eq_false_iff_not] at h
    exact ⟨i, hi, h.1, h.2.symm⟩

/-- Barring a resource. -/
theorem bar_spec (h : p.bar resource = .ok q) :
    ∃ i, p.graph.topology.find resource = some i ∧
      q = { p with
        containable := p.containable.set i false
        barred_nodes := p.barred_nodes ++ [i] } := by
  rw [bar] at h
  split at h
  · simp [fail] at h
  · rename_i i hi
    simp only [Except.ok.injEq] at h
    exact ⟨i, hi, h.symm⟩

/-- Adding a failure source keeps the indices in order. -/
theorem Indexed.addSource (hp : p.Indexed) (h : p.addSource resource = .ok q) : q.Indexed := by
  obtain ⟨i, hi, hnew, rfl⟩ := addSource_spec h
  have hlt : i < p.nodeCount := find_lt hi
  refine ⟨?_, ?_, hp.protected_nodup, hp.protected_lt, hp.containable_length,
    hp.containable_protected⟩
  · exact List.nodup_append.mpr ⟨hp.sources_nodup, by simp,
      by rintro a ha b hb rfl; exact hnew (List.mem_singleton.mp hb ▸ ha)⟩
  · intro s hs
    rcases List.mem_append.mp hs with hs | hs
    · exact hp.sources_lt s hs
    · rw [List.mem_singleton] at hs; exact hs ▸ hlt

/-- Adding an obligation keeps the indices in order. -/
theorem Indexed.addObligation (hp : p.Indexed) (h : p.addObligation resource = .ok q) : q.Indexed := by
  obtain ⟨i, hi, hnew, rfl⟩ := addObligation_spec h
  have hlt : i < p.nodeCount := find_lt hi
  have hi' : i < p.containable.length := hp.containable_length ▸ hlt
  refine ⟨hp.sources_nodup, hp.sources_lt, ?_, ?_, ?_, ?_⟩
  · exact List.nodup_append.mpr ⟨hp.protected_nodup, by simp,
      by rintro a ha b hb rfl; exact hnew (List.mem_singleton.mp hb ▸ ha)⟩
  · intro s hs
    rcases List.mem_append.mp hs with hs | hs
    · exact hp.protected_lt s hs
    · rw [List.mem_singleton] at hs; exact hs ▸ hlt
  · rw [List.length_set]; exact hp.containable_length
  · intro x hx
    rw [isContainable, getD_set hi']
    split
    · rfl
    · rename_i hne
      rcases List.mem_append.mp hx with hx | hx
      · exact hp.containable_protected x hx
      · rw [List.mem_singleton] at hx; exact absurd hx.symm hne

/-- Barring a resource, before any obligation is added, keeps the indices in order. -/
theorem Indexed.bar (hp : p.Indexed) (hnone : p.protected_nodes = []) (h : p.bar resource = .ok q) :
    q.Indexed := by
  obtain ⟨i, hi, rfl⟩ := bar_spec h
  refine ⟨hp.sources_nodup, hp.sources_lt, hp.protected_nodup, hp.protected_lt, ?_, ?_⟩
  · rw [List.length_set]; exact hp.containable_length
  · intro x hx; simp [hnone] at hx

/-- The start of the loops. -/
theorem Indexed.start (graph : PropagationGraph) (spec : ContainmentInstanceSpec) :
    (start graph spec).Indexed :=
  ⟨by simp [ContainmentProblem.start], by simp [ContainmentProblem.start],
    by simp [ContainmentProblem.start], by simp [ContainmentProblem.start],
    by simp [ContainmentProblem.start, nodeCount, PropagationGraph.nodeCount, Topology.nodeCount],
    by simp [ContainmentProblem.start]⟩

/-- Looking up a list of resources adds their indices, in order. -/
theorem addSources_spec {ids : List ResourceId} (h : ids.foldlM addSource p = .ok q) :
    ∃ is, ids.map p.graph.topology.find = is.map some ∧
      q = { p with sources := p.sources ++ is } := by
  induction ids generalizing p with
  | nil => simp only [List.foldlM_nil, pure_eq_ok] at h; exact ⟨[], rfl, by simp [← h]⟩
  | cons id ids ih =>
    simp only [List.foldlM_cons, bind_eq_ok] at h
    obtain ⟨p', hp', hrest⟩ := h
    obtain ⟨i, hi, -, rfl⟩ := addSource_spec hp'
    obtain ⟨is, his, rfl⟩ := ih hrest
    exact ⟨i :: is, by simp [hi, his], by simp⟩

/-- Looking up a list of resources adds their indices, in order, and writes their flags. -/
theorem addObligations_spec {ids : List ResourceId} (h : ids.foldlM addObligation p = .ok q)
    (hlen : p.containable.length = p.nodeCount) :
    ∃ is, ids.map p.graph.topology.find = is.map some ∧
      ∃ containable, (∀ x, x ∉ is → containable.getD x false = p.isContainable x) ∧
      q = { p with
        protected_nodes := p.protected_nodes ++ is
        containable := containable } := by
  induction ids generalizing p with
  | nil =>
    simp only [List.foldlM_nil, pure_eq_ok] at h
    exact ⟨[], rfl, p.containable, fun _ _ => rfl, by simp [← h]⟩
  | cons id ids ih =>
    simp only [List.foldlM_cons, bind_eq_ok] at h
    obtain ⟨p', hp', hrest⟩ := h
    obtain ⟨i, hi, -, rfl⟩ := addObligation_spec hp'
    have hlt : i < p.containable.length := hlen ▸ find_lt hi
    obtain ⟨is, his, c, hc, rfl⟩ := ih hrest (by rw [List.length_set]; exact hlen)
    refine ⟨i :: is, by simp [hi, his], c, fun x hx => ?_, by simp⟩
    rw [List.mem_cons, not_or] at hx
    rw [hc x hx.2, isContainable, getD_set hlt, if_neg (Ne.symm hx.1)]
    rfl

variable {graph : PropagationGraph} {spec : ContainmentInstanceSpec}

/-- What `build` computes, step by step. -/
theorem build_eq_ok (h : build graph spec = .ok p) :
    spec.failure_sources ≠ [] ∧ spec.protected_obligations ≠ [] ∧
      spec.max_members.toNat ≤ kMaxBoundaryMembers ∧
      ∃ p₁ p₂ p₃, spec.forced_ineligible.foldlM bar (start graph spec) = .ok p₁ ∧
        spec.failure_sources.foldlM addSource p₁.sortBarred = .ok p₂ ∧
        spec.protected_obligations.foldlM addObligation p₂ = .ok p₃ ∧
        p = p₃.sortProtected.derive spec := by
  simp only [build, require_bind_eq_ok, bne_iff_ne, decide_eq_true_eq, Bool.and_eq_true] at h
  obtain ⟨hf, hp, -, -, hm, h⟩ := h
  simp only [bind_eq_ok, pure_eq_ok] at h
  obtain ⟨p₁, h₁, p₂, h₂, p₃, h₃, hq⟩ := h
  exact ⟨hf, hp, hm.2, p₁, p₂, p₃, h₁, h₂, h₃, hq.symm⟩

/-- Barring resources adds no source and no obligation. -/
theorem bars_spec {ids : List ResourceId} (h : ids.foldlM bar p = .ok q) :
    q.graph = p.graph ∧ q.sources = p.sources ∧ q.protected_nodes = p.protected_nodes :=
  foldlM_invariant (f := bar)
    (motive := fun r => r.graph = p.graph ∧ r.sources = p.sources ∧
      r.protected_nodes = p.protected_nodes)
    (fun r id r' hr h' => by obtain ⟨i, -, rfl⟩ := bar_spec h'; exact hr) ⟨rfl, rfl, rfl⟩ h

/-- Barring resources, before any obligation is added, keeps the indices in order. -/
theorem Indexed.bars {ids : List ResourceId} (hp : p.Indexed) (hnone : p.protected_nodes = [])
    (h : ids.foldlM ContainmentProblem.bar p = .ok q) : q.Indexed :=
  (foldlM_invariant (f := ContainmentProblem.bar)
    (motive := fun r => r.Indexed ∧ r.protected_nodes = [])
    (fun r id r' hr h' => by
      refine ⟨hr.1.bar hr.2 h', ?_⟩
      obtain ⟨i, -, rfl⟩ := bar_spec h'
      exact hr.2) ⟨hp, hnone⟩ h).1

/-- `build` copies its arguments. -/
theorem build_copied (h : build graph spec = .ok p) : Copied graph spec p := by
  obtain ⟨-, -, -, p₁, p₂, p₃, h₁, h₂, h₃, rfl⟩ := build_eq_ok h
  have hc₁ : Copied graph spec p₁ :=
    foldlM_invariant (f := bar) (motive := Copied graph spec)
      (fun r id r' hr h' => by obtain ⟨i, -, rfl⟩ := bar_spec h'; exact hr)
      ⟨rfl, rfl, rfl, rfl, rfl, rfl⟩ h₁
  have hc₂ : Copied graph spec p₂ :=
    foldlM_invariant (f := addSource) (motive := Copied graph spec)
      (fun r id r' hr h' => by obtain ⟨i, -, -, rfl⟩ := addSource_spec h'; exact hr)
      (show Copied graph spec p₁.sortBarred from hc₁) h₂
  have hc₃ : Copied graph spec p₃ :=
    foldlM_invariant (f := addObligation) (motive := Copied graph spec)
      (fun r id r' hr h' => by obtain ⟨i, -, -, rfl⟩ := addObligation_spec h'; exact hr) hc₂ h₃
  exact hc₃

/-- What the sources and obligations of a built problem are: the indices of the given resources,
the obligations sorted. -/
theorem build_indices (h : build graph spec = .ok p) :
    spec.failure_sources.map graph.topology.find = p.sources.map some ∧
      ∃ is, spec.protected_obligations.map graph.topology.find = is.map some ∧
        p.protected_nodes = sortBy id is := by
  obtain ⟨-, -, -, p₁, p₂, p₃, h₁, h₂, h₃, rfl⟩ := build_eq_ok h
  obtain ⟨hg, hs, hp⟩ := bars_spec h₁
  have hlen₁ := ((Indexed.start graph spec).bars rfl h₁).containable_length
  obtain ⟨is, his, rfl⟩ := addSources_spec h₂
  obtain ⟨js, hjs, c, -, rfl⟩ := addObligations_spec h₃ hlen₁
  have hg : p₁.graph = graph := hg
  have hs : p₁.sources = [] := hs
  have hp : p₁.protected_nodes = [] := hp
  refine ⟨?_, js, ?_, ?_⟩
  · simpa [derive, sortProtected, sortBarred, hs, hg] using his
  · simpa [sortBarred, hg] using hjs
  · simp [derive, sortProtected, sortBarred, hp]

/-- A built problem is well formed. -/
theorem build_wellFormed (h : build graph spec = .ok p) : p.WellFormed := by
  have hcopied := build_copied h
  obtain ⟨hsrc, is, his, hprot⟩ := build_indices h
  obtain ⟨hf, hpne, hm, p₁, p₂, p₃, h₁, h₂, h₃, rfl⟩ := build_eq_ok h
  have hi₁ : p₁.Indexed := (Indexed.start graph spec).bars rfl h₁
  have hi₂ : p₂.Indexed :=
    foldlM_invariant (f := addSource) (motive := Indexed) (fun r id r' hr h' => hr.addSource h')
      (show Indexed p₁.sortBarred from
        ⟨hi₁.1, hi₁.2, hi₁.3, hi₁.4, hi₁.5, hi₁.6⟩) h₂
  have hi₃ : p₃.Indexed :=
    foldlM_invariant (f := addObligation) (motive := Indexed)
      (fun r id r' hr h' => hr.addObligation h') hi₂ h₃
  refine ⟨?_, hi₃.sources_nodup, hi₃.sources_lt, ?_, ?_, ?_, hi₃.containable_length, ?_, rfl, rfl,
    rfl, ?_, ?_⟩
  · intro hnil
    rw [hnil] at hsrc
    exact hf (by simpa using hsrc)
  · intro hnil
    rw [hnil] at hprot
    have : is = [] := List.eq_nil_of_length_eq_zero (by
      have := congrArg List.length hprot; simpa using this.symm)
    rw [this] at his
    exact hpne (by simpa using his)
  · exact perm_sortBy.nodup_iff.mpr hi₃.protected_nodup
  · exact fun x hx => hi₃.protected_lt x (mem_sortBy.mp hx)
  · exact fun x hx => hi₃.containable_protected x (mem_sortBy.mp hx)
  · rw [hcopied.2.2.2.2.2]; exact hm
  · rw [hcopied.2.2.2.2.1]
    have := spec.max_total_weight.toNat_lt
    rw [kMaxUInt64]; omega

/-- The containable flags once the nodes of some resources are barred. -/
def barredFlags (t : Topology) (barred : List ResourceId) : List Bool :=
  barred.foldl (fun flags id => ((t.find id).map fun i => flags.set i false).getD flags)
    (t.nodes.map NodeSpec.containable)

/-- Barring resources writes their flags. -/
theorem bars_containable {ids : List ResourceId} {p q : ContainmentProblem}
    (h : ids.foldlM bar p = .ok q) :
    q.containable = ids.foldl
      (fun flags id => ((p.graph.topology.find id).map fun i => flags.set i false).getD flags)
      p.containable := by
  induction ids generalizing p with
  | nil =>
    simp only [List.foldlM_nil, pure_eq_ok] at h
    rw [← h]
    rfl
  | cons id ids ih =>
    simp only [List.foldlM_cons, bind_eq_ok] at h
    obtain ⟨p', hp', hrest⟩ := h
    obtain ⟨i, hi, rfl⟩ := bar_spec hp'
    rw [ih hrest, List.foldl_cons, hi]
    rfl

/-- The sources are the indices of the failed resources. -/
theorem mem_sources_of_build (h : build graph spec = .ok p) {i : NodeIndex} :
    i ∈ p.sources ↔ ∃ r ∈ spec.failure_sources, graph.topology.find r = some i := by
  have hmem : i ∈ p.sources ↔ some i ∈ p.sources.map some := by simp
  rw [hmem, ← (build_indices h).1, List.mem_map]

/-- The obligations are the indices of the protected resources. -/
theorem mem_protected_of_build (h : build graph spec = .ok p) {i : NodeIndex} :
    i ∈ p.protected_nodes ↔ ∃ r ∈ spec.protected_obligations, graph.topology.find r = some i := by
  obtain ⟨-, is, his, hp⟩ := build_indices h
  have hmem : i ∈ is ↔ some i ∈ is.map some := by simp
  rw [hp, mem_sortBy, hmem, ← his, List.mem_map]

/-- The relevant nodes are computed from the obligations. -/
theorem relevant_of_build (h : build graph spec = .ok p) :
    p.relevant = p.computeRelevant := by
  obtain ⟨-, -, -, _, _, _, -, -, -, rfl⟩ := build_eq_ok h
  rfl

/-- A node that is no obligation keeps its flag. -/
theorem isContainable_of_build (h : build graph spec = .ok p) {i : NodeIndex}
    (hi : i ∉ p.protected_nodes) :
    p.isContainable i = (barredFlags graph.topology spec.forced_ineligible).getD i false := by
  obtain ⟨-, -, -, p₁, p₂, p₃, h₁, h₂, h₃, rfl⟩ := build_eq_ok h
  have hlen₁ := ((Indexed.start graph spec).bars rfl h₁).containable_length
  have hflags : p₁.containable = barredFlags graph.topology spec.forced_ineligible :=
    bars_containable h₁
  obtain ⟨is, his, rfl⟩ := addSources_spec h₂
  obtain ⟨js, hjs, c, hc, rfl⟩ := addObligations_spec h₃ hlen₁
  have hout : i ∉ js := fun hin => hi (by
    simp only [derive, sortProtected, mem_sortBy]
    exact List.mem_append_right _ hin)
  have hkept : c.getD i false = p₁.containable.getD i false := hc i hout
  rw [← hflags]
  exact hkept

end Building

/-! ## The hard constraints -/

/-- Every path of the conservative graph from a source to an obligation meets the set. -/
def Separates (p : ContainmentProblem) (cut : List NodeIndex) : Prop :=
  Disconnects p.graph.Conservative {x | x ∈ p.sources} {x | x ∈ p.protected_nodes} {x | x ∈ cut}

/-- The hard constraints on a containment set. -/
structure Accepts (p : ContainmentProblem) (cut : List NodeIndex) : Prop where
  size_le : cut.length ≤ p.max_members
  nodup : cut.Nodup
  lt : ∀ x ∈ cut, x < p.nodeCount
  containable : ∀ x ∈ cut, p.isContainable x = true
  allowed : ∀ x ∈ cut, p.isProtected x = true → p.allow_protected_inclusion = true
  weight_le : (cut.map p.weight).sum ≤ p.max_total_weight
  sources : p.require_source_inclusion = true → ∀ s ∈ p.sources, p.isContainable s = true → s ∈ cut
  separates : p.Separates cut

/-- The objective of a containment set. -/
def objectiveOf (p : ContainmentProblem) (cut : List NodeIndex) : ObjectiveVector :=
  ⟨cut.countP p.isProtected, (cut.map p.weight).sum, cut.length, (sortBy id cut).map p.resourceId⟩

section Verifier

variable {p : ContainmentProblem} {cut cut' : List NodeIndex}

/-- The nodes of a problem, as the universe of its searches. -/
theorem edges_inside (p : ContainmentProblem) :
    ∀ a ∈ Finset.range p.nodeCount, ∀ b ∈ p.graph.conservativeSuccessors a,
      b ∈ Finset.range p.nodeCount := fun _ _ _ hb =>
  Finset.mem_range.mpr (PropagationGraph.Conservative.lt hb).2

/-- The verifier's search finds an obligation exactly when the excluded nodes leave a path. -/
theorem sourceReachesProtected_eq_false (hp : p.WellFormed) :
    sourceReachesProtected p cut = false ↔ p.Separates cut := by
  have hvisited (x : NodeIndex) :
      x ∈ Bfs.visited p.graph.conservativeSuccessors cut p.nodeCount p.sources ↔
        Reaches p.graph.Conservative {y | y ∈ cut} {y | y ∈ p.sources} x :=
    Bfs.mem_visited_iff (edges_inside p) (fun x hx => Finset.mem_range.mpr (hp.sources_lt x hx))
      (Finset.card_range _).le x
  rw [sourceReachesProtected, Bfs.meets_eq_any, List.any_eq_false, Separates, disconnects_iff]
  constructor
  · intro h x hx hgoal
    exact h x ((hvisited x).mpr hx) (by simpa [isProtected] using hgoal)
  · intro h x hx
    have := h x ((hvisited x).mp hx)
    simpa [isProtected] using this

/-- The separating sets are closed under adding nodes. -/
theorem Separates.mono (h : p.Separates cut) (hsub : ∀ x ∈ cut, x ∈ cut') : p.Separates cut' :=
  Disconnects.mono h (fun _ _ hab => hab) hsub

/-- The hard constraints do not depend on the order of the members. -/
theorem Accepts.perm (h : p.Accepts cut) (hperm : cut.Perm cut') : p.Accepts cut' where
  size_le := hperm.length_eq ▸ h.size_le
  nodup := hperm.nodup_iff.mp h.nodup
  lt x hx := h.lt x (hperm.mem_iff.mpr hx)
  containable x hx := h.containable x (hperm.mem_iff.mpr hx)
  allowed x hx := h.allowed x (hperm.mem_iff.mpr hx)
  weight_le := (hperm.map p.weight).sum_eq ▸ h.weight_le
  sources hr s hs hc := hperm.mem_iff.mp (h.sources hr s hs hc)
  separates := h.separates.mono fun _ hx => hperm.mem_iff.mp hx

/-- The objective does not depend on the order of the members. -/
theorem objectiveOf_perm (hnd : cut.Nodup) (hperm : cut.Perm cut') :
    p.objectiveOf cut = p.objectiveOf cut' := by
  rw [objectiveOf, objectiveOf, sortBy_id_eq_of_perm hnd hperm, hperm.countP_eq, (hperm.map p.weight).sum_eq,
    hperm.length_eq]

/-- A weight is a 64-bit value. -/
theorem weight_le (p : ContainmentProblem) (x : NodeIndex) : p.weight x ≤ kMaxUInt64 := by
  have := (p.graph.topology.node x).weight.toNat_lt
  rw [weight, kMaxUInt64]
  omega

/-- The running totals succeed exactly on eligible members whose weights do not overflow. -/
theorem accumulate_eq_ok {members : List NodeIndex} {totals totals' : ℕ × ℕ}
    (ht : totals.2 ≤ kMaxUInt64) :
    members.foldlM (accumulateMember p) totals = .ok totals' ↔
      (∀ x ∈ members, x < p.nodeCount ∧ p.isContainable x = true ∧
        (p.isProtected x = true → p.allow_protected_inclusion = true)) ∧
      totals.2 + (members.map p.weight).sum ≤ kMaxUInt64 ∧
      totals' = (totals.1 + members.countP p.isProtected,
        totals.2 + (members.map p.weight).sum) := by
  induction members generalizing totals with
  | nil =>
    simp only [List.foldlM_nil, pure_eq_ok, List.not_mem_nil, false_implies, implies_true,
      List.map_nil, List.sum_nil, List.countP_nil, Nat.add_zero, ht, true_and]
    exact eq_comm
  | cons x members ih =>
    rw [List.foldlM_cons, bind_eq_ok]
    have hstep (t : ℕ × ℕ) : accumulateMember p totals x = .ok t ↔
        (x < p.nodeCount ∧ p.isContainable x = true ∧
          (p.isProtected x = true → p.allow_protected_inclusion = true)) ∧
        totals.2 + p.weight x ≤ kMaxUInt64 ∧
        t = (totals.1 + (if p.isProtected x then 1 else 0), totals.2 + p.weight x) := by
      rw [accumulateMember, checkedAdd]
      simp only [require_bind_eq_ok, decide_eq_true_eq, Bool.or_eq_true, Bool.not_eq_true']
      have hor : (p.isProtected x = false ∨ p.allow_protected_inclusion = true) ↔
          (p.isProtected x = true → p.allow_protected_inclusion = true) := by
        cases p.isProtected x <;> simp
      have hw := p.weight_le x
      rw [hor, and_assoc, and_assoc]
      by_cases hov : totals.2 > kMaxUInt64 - p.weight x
      · have hnot : ¬ totals.2 + p.weight x ≤ kMaxUInt64 := by omega
        simp [hov, fail, hnot]
      · have hle : totals.2 + p.weight x ≤ kMaxUInt64 := by omega
        simp only [if_neg hov, pure_eq_ok, hle, true_and, eq_comm (a := t)]
    constructor
    · rintro ⟨t, hx, hrest⟩
      obtain ⟨helig, hle, rfl⟩ := (hstep t).mp hx
      obtain ⟨hall, hsum, rfl⟩ := (ih hle).mp hrest
      refine ⟨?_, by simp only [List.map_cons, List.sum_cons]; simp only at hsum; omega, ?_⟩
      · intro y hy
        rcases List.mem_cons.mp hy with rfl | hy
        · exact helig
        · exact hall y hy
      · simp only [List.countP_cons, List.map_cons, List.sum_cons, Prod.mk.injEq]
        constructor <;> omega
    · rintro ⟨hall, hsum, rfl⟩
      simp only [List.map_cons, List.sum_cons] at hsum
      refine ⟨_, (hstep _).mpr ⟨hall x (by simp), by omega, rfl⟩, (ih (by simp only; omega)).mpr
        ⟨fun y hy => hall y (List.mem_cons_of_mem _ hy), by simp only; omega, ?_⟩⟩
      simp only [List.countP_cons, List.map_cons, List.sum_cons, Prod.mk.injEq]
      constructor <;> omega

/-- The verifier accepts exactly the sets that meet the hard constraints, and returns their
objective. -/
theorem verifyCut_eq_ok_iff (hp : p.WellFormed) {o : ObjectiveVector} :
    verifyCut p cut = .ok o ↔ p.Accepts cut ∧ o = p.objectiveOf cut := by
  have hperm : (sortBy id cut).Perm cut := perm_sortBy
  have hle : ((sortBy id cut).map id).Pairwise (· ≤ ·) := pairwise_sortBy
  have hchain : (sortBy id cut).IsChain (· ≠ ·) ↔ cut.Nodup := by
    rw [← hperm.nodup_iff]
    exact ⟨fun h => by simpa using (ascending_of_isChain hle h).nodup, List.Pairwise.isChain⟩
  have hsum : ((sortBy id cut).map p.weight).sum = (cut.map p.weight).sum :=
    (hperm.map p.weight).sum_eq
  rw [verifyCut]
  simp only [require_bind_eq_ok, decide_eq_true_eq, hchain]
  have htotals (totals : ℕ × ℕ) :
      (sortBy id cut).foldlM (accumulateMember p) (0, 0) = .ok totals ↔ _ :=
    accumulate_eq_ok (Nat.zero_le _)
  simp only [mem_sortBy, hsum, Nat.zero_add, hperm.countP_eq] at htotals
  rw [bind_eq_ok]
  simp only [htotals]
  constructor
  · rintro ⟨hsize, hnd, totals, ⟨hall, hov, rfl⟩, h⟩
    simp only [require_bind_eq_ok, decide_eq_true_eq, pure_eq_ok, Bool.or_eq_true,
      Bool.not_eq_true', List.all_eq_true, sourceReachesProtected_eq_false hp, mem_sortBy] at h
    obtain ⟨hw, hsrc, hsep, rfl⟩ := h
    refine ⟨⟨hsize, hnd, fun x hx => (hall x hx).1, fun x hx => (hall x hx).2.1,
      fun x hx => (hall x hx).2.2, hw, fun hr s hs hc => ?_,
      hsep.mono fun x hx => mem_sortBy.mp hx⟩, by simp [objectiveOf]⟩
    rcases hsrc with h | h
    · simp [hr] at h
    · simpa [hc] using h s hs
  · rintro ⟨h, rfl⟩
    refine ⟨h.size_le, h.nodup, _, ⟨fun x hx => ⟨h.lt x hx, h.containable x hx, h.allowed x hx⟩,
      le_trans h.weight_le hp.max_total_weight_le, rfl⟩, ?_⟩
    simp only [require_bind_eq_ok, decide_eq_true_eq, pure_eq_ok, Bool.or_eq_true,
      Bool.not_eq_true', List.all_eq_true, sourceReachesProtected_eq_false hp, mem_sortBy]
    refine ⟨h.weight_le, ?_, h.separates.mono fun x hx => mem_sortBy.mpr hx, by simp [objectiveOf]⟩
    by_cases hr : p.require_source_inclusion = true
    · refine Or.inr fun s hs => ?_
      by_cases hc : p.isContainable s = true
      · exact Or.inr (h.sources hr s hs hc)
      · exact Or.inl (by simpa using hc)
    · exact Or.inl (by simpa using hr)

/-- The verifier accepts a set exactly when it meets the hard constraints. -/
theorem exists_verifyCut_iff (hp : p.WellFormed) :
    (∃ o, verifyCut p cut = .ok o) ↔ p.Accepts cut := by
  simp only [verifyCut_eq_ok_iff hp, exists_and_left, exists_eq, and_true]

/-- A path without a containable node lets no set be accepted. -/
theorem not_accepts_of_witness {path : List NodeIndex}
    (h : verifyInfeasibilityWitness p path = true) : ¬ p.Accepts cut := by
  simp only [verifyInfeasibilityWitness, Bool.and_eq_true, decide_eq_true_eq,
    Option.any_eq_true, isSource, isProtected, List.all_eq_true, Bool.not_eq_true'] at h
  obtain ⟨⟨⟨⟨-, s, hs, hsrc⟩, t, ht, hprot⟩, hall⟩, hchain⟩ := h
  intro hacc
  obtain ⟨x, hx, hcut⟩ := hacc.separates path ⟨hchain, ⟨s, hsrc, hs⟩, ⟨t, hprot, ht⟩⟩
  exact absurd (hacc.containable x hcut) (by simp [hall x hx])

end Verifier

end ContainmentProblem

end Fcfn
