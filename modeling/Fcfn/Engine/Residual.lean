import Fcfn.Engine.CutFacts
import Fcfn.Engine.Solver

/-!
# Residual paths and the order of objectives

The two things the solvers' proofs rest on. A residual path is a walk from a source to an
obligation, so every separating set meets it; when there is none, a set separates as soon as it
holds the sources that are obligations themselves (`separates_iff`). The objective order is the
lexicographic order of a key, and a part of a set never has the larger key. -/

namespace Fcfn

open Sorted Walks

namespace ContainmentProblem

variable {p : ContainmentProblem} {cut cut' blocked : List NodeIndex}

/-! ## Residual paths -/

/-- A residual path is a path around the blocked nodes. -/
theorem residual_path (h : shortestResidualPath p blocked ≠ []) :
    Bfs.Path p.graph.conservativeSuccessors blocked p.sources p.isProtected
      (shortestResidualPath p blocked) :=
  Bfs.shortestPath_path (fun x => by simp [isSource]) h

/-- A residual path is a walk from a source to an obligation. -/
theorem residual_walk (h : shortestResidualPath p blocked ≠ []) :
    Walk p.graph.Conservative {x | x ∈ p.sources} {x | x ∈ p.protected_nodes}
      (shortestResidualPath p blocked) := by
  have hpath := residual_path h
  obtain ⟨t, hlast, hgoal, -⟩ := hpath.last
  exact ⟨hpath.chain, hpath.head, t, by simpa [isProtected] using hgoal, hlast⟩

/-- Every separating set meets a residual path. -/
theorem Separates.meets (h : p.Separates cut) (hne : shortestResidualPath p blocked ≠ []) :
    ∃ x ∈ shortestResidualPath p blocked, x ∈ cut :=
  h _ (residual_walk hne)

/-- No residual path means that only sources are reached obligations. -/
theorem residual_eq_nil (hp : p.WellFormed) :
    shortestResidualPath p blocked = [] ↔
      ∀ x, Reaches p.graph.Conservative {y | y ∈ blocked} {y | y ∈ p.sources} x →
        x ∈ p.protected_nodes → x ∈ p.sources := by
  have h : shortestResidualPath p blocked = [] ↔ _ :=
    Bfs.shortestPath_eq_nil_iff (edges_inside p)
      (fun x hx => Finset.mem_range.mpr (hp.sources_lt x hx)) (Finset.card_range _).le
      (fun x => by simp [isSource])
  simp only [isProtected, decide_eq_true_eq] at h
  exact h

/-- A set separates exactly when it leaves no residual path and holds every source that is an
obligation itself. -/
theorem separates_iff (hp : p.WellFormed) :
    p.Separates cut ↔ shortestResidualPath p cut = [] ∧
      ∀ s ∈ p.sources, s ∈ p.protected_nodes → s ∈ cut := by
  rw [Separates, disconnects_iff, residual_eq_nil hp]
  constructor
  · intro h
    refine ⟨fun x hx hprot => absurd hprot (h x hx), fun s hs hprot => ?_⟩
    by_contra hout
    exact h s (.seed hs hout) hprot
  · rintro ⟨hnil, hall⟩ x hx hprot
    exact hx.not_mem (hall x (hnil x hx hprot) hprot)

/-- The nodes of a residual path are nodes of the graph that are not blocked. -/
theorem lt_of_mem_residual (hp : p.WellFormed) {x : NodeIndex}
    (hx : x ∈ shortestResidualPath p blocked) : x < p.nodeCount ∧ x ∉ blocked := by
  have hne : shortestResidualPath p blocked ≠ [] := List.ne_nil_of_mem hx
  have hpath := residual_path hne
  refine ⟨?_, hpath.unblocked x hx⟩
  have hreach := (residual_walk hne).reaches hpath.unblocked x hx
  exact hreach.rec_on (fun s hs _ => hp.sources_lt s hs)
    (fun _ _ _ _ hab _ => (PropagationGraph.Conservative.lt hab).2)

end ContainmentProblem

/-! ## The order of objectives -/

/-- The key objectives are compared by: protected inclusions when they count, weight, cardinality,
members. -/
def objectiveKey (minimize_protected : Bool) (o : ObjectiveVector) :
    ℕ ×ₗ ℕ ×ₗ ℕ ×ₗ List ResourceId :=
  toLex (if minimize_protected then o.protected_inclusions else 0,
    toLex (o.total_weight, toLex (o.cardinality, o.signature)))

/-- The source's comparison is the order of the keys. -/
theorem objectiveLess_iff {a b : ObjectiveVector} {m : Bool} :
    objectiveLess a b m = true ↔ objectiveKey m a < objectiveKey m b := by
  simp only [objectiveLess, objectiveKey, Prod.Lex.toLex_lt_toLex]
  cases m
  · simp only [Bool.false_and, Bool.false_eq_true, if_false, lt_irrefl, false_or, true_and]
    split <;> [skip; split] <;> simp_all
  · simp only [Bool.true_and, if_true]
    split <;> [skip; split <;> [skip; split]] <;> simp_all

/-- The empty signature comes first. -/
theorem nil_le_signature (signature : List ResourceId) : [] ≤ signature :=
  not_lt.mp fun h => by cases h

/-- An objective that is no larger at any place has no larger key. -/
theorem objectiveKey_le {a b : ObjectiveVector} {m : Bool}
    (hprot : a.protected_inclusions ≤ b.protected_inclusions)
    (hweight : a.total_weight ≤ b.total_weight) (hcard : a.cardinality ≤ b.cardinality)
    (hsig : a.cardinality = b.cardinality → a.signature ≤ b.signature) :
    objectiveKey m a ≤ objectiveKey m b := by
  have hfirst : (if m then a.protected_inclusions else 0) ≤
      if m then b.protected_inclusions else 0 := by split <;> omega
  simp only [objectiveKey, Prod.Lex.toLex_le_toLex]
  rcases hfirst.lt_or_eq with h | h
  · exact Or.inl h
  · refine Or.inr ⟨h, ?_⟩
    rcases hweight.lt_or_eq with h | h
    · exact Or.inl h
    · refine Or.inr ⟨h, ?_⟩
      rcases hcard.lt_or_eq with h | h
      · exact Or.inl h
      · exact Or.inr ⟨h, hsig h⟩

namespace ContainmentProblem

variable {p : ContainmentProblem} {cut cut' : List NodeIndex}

/-- A set splits into a part of it and the rest. -/
theorem perm_append_filter (hnd : cut.Nodup) (hsub : ∀ x ∈ cut, x ∈ cut') (hnd' : cut'.Nodup) :
    cut'.Perm (cut ++ cut'.filter (fun x => decide (x ∉ cut))) := by
  rw [List.perm_ext_iff_of_nodup hnd']
  · intro a
    simp only [List.mem_append, List.mem_filter, decide_eq_true_eq]
    constructor
    · intro ha
      by_cases h : a ∈ cut
      · exact Or.inl h
      · exact Or.inr ⟨ha, h⟩
    · rintro (h | h)
      · exact hsub a h
      · exact h.1
  · exact List.nodup_append.mpr ⟨hnd, hnd'.filter _, fun a ha b hb hab => by
      have := (List.mem_filter.mp hb).2
      simp only [decide_eq_true_eq] at this
      exact this (hab ▸ ha)⟩

/-- The weight of a set is that of a part of it and of the rest. -/
theorem weight_split (hnd : cut.Nodup) (hsub : ∀ x ∈ cut, x ∈ cut') (hnd' : cut'.Nodup) :
    (cut'.map p.weight).sum =
      (cut.map p.weight).sum + ((cut'.filter (fun x => decide (x ∉ cut))).map p.weight).sum := by
  rw [((perm_append_filter hnd hsub hnd').map p.weight).sum_eq, List.map_append, List.sum_append]

/-- A part of a set has no more members. -/
theorem length_le_of_subset (hnd : cut.Nodup) (hsub : ∀ x ∈ cut, x ∈ cut') :
    cut.length ≤ cut'.length :=
  (List.subperm_of_subset hnd hsub).length_le

/-- A part of a set that has as many members is the set. -/
theorem perm_of_length_eq (hnd : cut.Nodup) (hsub : ∀ x ∈ cut, x ∈ cut')
    (hlen : cut.length = cut'.length) : cut.Perm cut' :=
  (List.subperm_of_subset hnd hsub).perm_of_length_le hlen.ge

/-- A part of a set has no larger objective. -/
theorem objectiveKey_mono {m : Bool} (hnd : cut.Nodup) (hsub : ∀ x ∈ cut, x ∈ cut')
    (hnd' : cut'.Nodup) :
    objectiveKey m (p.objectiveOf cut) ≤ objectiveKey m (p.objectiveOf cut') := by
  refine objectiveKey_le ?_ ?_ (length_le_of_subset hnd hsub) fun hlen => ?_
  · exact (List.subperm_of_subset hnd hsub).countP_le _
  · have := weight_split (p := p) hnd hsub hnd'
    simp only [objectiveOf]
    omega
  · rw [objectiveOf_perm hnd (perm_of_length_eq hnd hsub hlen)]

/-- The identities of nodes are distinct. -/
theorem resourceId_inj {x y : NodeIndex} (hx : x < p.nodeCount) (hy : y < p.nodeCount)
    (h : p.resourceId x = p.resourceId y) : x = y := by
  have hasc := p.graph.topology.valid.nodes_ascending
  have hget (z : NodeIndex) (hz : z < p.nodeCount) :
      findNode p.graph.topology.nodes (p.resourceId z) = some z := by
    have hz' : z < p.graph.topology.nodes.length := hz
    have := findNode_getElem hasc hz'
    rwa [resourceId, Topology.node, List.getD_eq_getElem?_getD, List.getElem?_eq_getElem hz',
      Option.getD_some]
  have := hget x hx
  rw [h, hget y hy] at this
  exact (Option.some.inj this).symm

/-- Lists with the same image under a function that is injective on them are equal. -/
theorem eq_of_map_eq {α β : Type} {f : α → β} {l l' : List α}
    (hinj : ∀ x ∈ l, ∀ y ∈ l', f x = f y → x = y) (h : l.map f = l'.map f) : l = l' := by
  induction l generalizing l' with
  | nil => simpa using h.symm
  | cons a l ih =>
    cases l' with
    | nil => simp at h
    | cons b l' =>
      simp only [List.map_cons, List.cons.injEq] at h
      rw [hinj a (by simp) b (by simp) h.1,
        ih (fun x hx y hy => hinj x (by simp [hx]) y (by simp [hy])) h.2]

/-- Sets of nodes with the same objective key have the same members. -/
theorem perm_of_objectiveKey_eq {m : Bool} (hlt : ∀ x ∈ cut, x < p.nodeCount)
    (hlt' : ∀ x ∈ cut', x < p.nodeCount)
    (h : objectiveKey m (p.objectiveOf cut) = objectiveKey m (p.objectiveOf cut')) :
    cut.Perm cut' := by
  simp only [objectiveKey, toLex_inj, Prod.mk.injEq, objectiveOf] at h
  obtain ⟨-, -, -, hsig⟩ := h
  have hsort : sortBy id cut = sortBy id cut' :=
    eq_of_map_eq (fun x hx y hy => resourceId_inj (hlt x (mem_sortBy.mp hx))
      (hlt' y (mem_sortBy.mp hy))) hsig
  have hperm : (sortBy id cut).Perm cut' := by rw [hsort]; exact perm_sortBy
  exact perm_sortBy.symm.trans hperm

end ContainmentProblem

end Fcfn
