import Fcfn.Engine.Bound

/-!
# The exact search is complete for the sets its residual paths lead to

Follow the residual paths of a problem with a set in hand: on each path include its first node in
the set, until there is no path (`Traced`). A set is `Traceable` when this ends with every source
that is an obligation included. The search finds the best traceable set: each of its steps keeps
the marks in order (`Node`) and what was found valid (`Found`), and unless it gives up it leaves
a set at least as good as every traceable one under its node (`Covers`). Pruning throws away no
traceable set that would be better.

When no source is an obligation every accepted set is traceable (`Accepts.traceable`), and
the search is complete. -/

namespace Fcfn

open Sorted Walks

namespace ContainmentProblem

variable {p : ContainmentProblem} {cut included leaf : List NodeIndex}

/-! ## Traces -/

/-- Following the residual paths from `included` and adding the first node of each that is in
`cut` ends at `leaf`. -/
inductive Traced (p : ContainmentProblem) (cut : List NodeIndex) :
    List NodeIndex → List NodeIndex → Prop
  | done {included : List NodeIndex} : shortestResidualPath p included = [] →
      Traced p cut included included
  | step {included leaf before after : List NodeIndex} {x : NodeIndex} :
      shortestResidualPath p included = before ++ x :: after → (∀ y ∈ before, y ∉ cut) →
      x ∈ cut → Traced p cut (x :: included) leaf → Traced p cut included leaf

/-- What the search starts from: the mandatory sources, the last one first. -/
def rootIncluded (p : ContainmentProblem) : List NodeIndex :=
  (p.sources.filter (isMandatoryMember p)).reverse

/-- The sources that are obligations themselves are among the nodes. -/
def HoldsOverlap (p : ContainmentProblem) (nodes : List NodeIndex) : Prop :=
  ∀ s ∈ p.sources, s ∈ p.protected_nodes → s ∈ nodes

/-- The residual paths lead to the set. -/
def Traceable (p : ContainmentProblem) (cut : List NodeIndex) : Prop :=
  ∃ leaf, Traced p cut p.rootIncluded leaf ∧ p.HoldsOverlap leaf

/-- The first element of a list with a property is the same in any two splittings. -/
theorem first_unique {α : Type} {P : α → Prop} {before before' after after' : List α} {x x' : α}
    (h : before ++ x :: after = before' ++ x' :: after') (hb : ∀ y ∈ before, ¬ P y)
    (hb' : ∀ y ∈ before', ¬ P y) (hx : P x) (hx' : P x') : x = x' := by
  induction before generalizing before' with
  | nil =>
    cases before' with
    | nil => simpa using (List.cons.inj h).1
    | cons b before' =>
      simp only [List.nil_append, List.cons_append, List.cons.injEq] at h
      exact absurd (h.1 ▸ hx) (hb' b (by simp))
  | cons a before ih =>
    cases before' with
    | nil =>
      simp only [List.nil_append, List.cons_append, List.cons.injEq] at h
      exact absurd (h.1.symm ▸ hx') (hb a (by simp))
    | cons b before' =>
      simp only [List.cons_append, List.cons.injEq] at h
      exact ih h.2 (fun y hy => hb y (by simp [hy])) (fun y hy => hb' y (by simp [hy]))

/-- A trace goes on through the first node of the residual path that is in the set. -/
theorem Traced.next {before after : List NodeIndex} {x : NodeIndex} (h : Traced p cut included leaf)
    (hpath : shortestResidualPath p included = before ++ x :: after) (hb : ∀ y ∈ before, y ∉ cut)
    (hx : x ∈ cut) : Traced p cut (x :: included) leaf := by
  cases h with
  | done hnil => rw [hnil] at hpath; simp at hpath
  | step hpath' hb' hx' hrest =>
    obtain rfl := first_unique (P := fun y => y ∈ cut) (hpath.symm.trans hpath') hb hb' hx hx'
    exact hrest

/-- A list that meets a set splits at its first node in the set. -/
theorem exists_first {l : List NodeIndex} (h : ∃ x ∈ l, x ∈ cut) :
    ∃ before x after, l = before ++ x :: after ∧ (∀ y ∈ before, y ∉ cut) ∧ x ∈ cut := by
  induction l with
  | nil => simp at h
  | cons a l ih =>
    by_cases ha : a ∈ cut
    · exact ⟨[], a, l, rfl, by simp, ha⟩
    · have hl : ∃ x ∈ l, x ∈ cut := by
        obtain ⟨x, hx, hc⟩ := h
        rcases List.mem_cons.mp hx with rfl | hx
        · exact absurd hc ha
        · exact ⟨x, hx, hc⟩
      obtain ⟨before, x, after, rfl, hb, hx⟩ := ih hl
      exact ⟨a :: before, x, after, rfl, by simpa [ha] using hb, hx⟩

/-- Every trace of a separating set ends. -/
theorem Separates.exists_traced (hp : p.WellFormed) (hsep : p.Separates cut) (hnd : included.Nodup)
    (hsub : ∀ x ∈ included, x ∈ cut) : ∃ leaf, Traced p cut included leaf := by
  obtain ⟨k, hk⟩ : ∃ k, cut.length - included.length = k := ⟨_, rfl⟩
  have hle := length_le_of_subset hnd hsub
  induction k generalizing included with
  | zero =>
    by_cases hpath : shortestResidualPath p included = []
    · exact ⟨included, .done hpath⟩
    · obtain ⟨x, hx, hcut⟩ := hsep.meets hpath
      have hnd' : (x :: included).Nodup :=
        List.nodup_cons.mpr ⟨(lt_of_mem_residual hp hx).2, hnd⟩
      have hsub' : ∀ y ∈ x :: included, y ∈ cut := by simpa [hcut] using hsub
      have hlong := length_le_of_subset hnd' hsub'
      rw [List.length_cons] at hlong
      omega
  | succ k ih =>
    by_cases hpath : shortestResidualPath p included = []
    · exact ⟨included, .done hpath⟩
    · obtain ⟨before, x, after, heq, hb, hx⟩ := exists_first (hsep.meets hpath)
      have hxi : x ∉ included := (lt_of_mem_residual hp (heq ▸ by simp)).2
      have hnd' : (x :: included).Nodup := List.nodup_cons.mpr ⟨hxi, hnd⟩
      have hsub' : ∀ y ∈ x :: included, y ∈ cut := by simpa [hx] using hsub
      have hlong := length_le_of_subset hnd' hsub'
      rw [List.length_cons] at hlong
      obtain ⟨leaf, hleaf⟩ := ih hnd' hsub' (by rw [List.length_cons]; omega)
        (by rw [List.length_cons]; exact hlong)
      exact ⟨leaf, .step heq hb hx hleaf⟩

/-- The mandatory sources are distinct nodes of every accepted set. -/
theorem mem_rootIncluded {x : NodeIndex} :
    x ∈ p.rootIncluded ↔ isMandatoryMember p x = true := by
  simp only [rootIncluded, List.mem_reverse, List.mem_filter, isMandatoryMember, Bool.and_eq_true,
    isSource, decide_eq_true_eq]
  tauto

theorem nodup_rootIncluded (hp : p.WellFormed) : p.rootIncluded.Nodup :=
  List.nodup_reverse.mpr (hp.sources_nodup.filter _)

/-- A mandatory node is in every accepted set. -/
theorem Accepts.mandatory (hacc : p.Accepts cut) {x : NodeIndex}
    (hx : isMandatoryMember p x = true) : x ∈ cut := by
  simp only [isMandatoryMember, Bool.and_eq_true, isSource, decide_eq_true_eq] at hx
  exact hacc.sources hx.1.1 x hx.1.2 hx.2

/-- When no source is an obligation, every accepted set is traceable. -/
theorem Accepts.traceable (hp : p.WellFormed) (hacc : p.Accepts cut)
    (hdisj : ∀ s ∈ p.sources, s ∉ p.protected_nodes) : p.Traceable cut := by
  obtain ⟨leaf, hleaf⟩ := hacc.separates.exists_traced hp (nodup_rootIncluded hp)
    fun x hx => hacc.mandatory (mem_rootIncluded.mp hx)
  exact ⟨leaf, hleaf, fun s hs hprot => absurd hprot (hdisj s hs)⟩

end ContainmentProblem

/-! ## The invariants of the search -/

namespace ExactState

open ContainmentProblem

/-- The marks of a search node are in order. -/
structure Node (p : ContainmentProblem) (s : ExactState) : Prop where
  included_eq : s.included = s.current.reverse
  weight_eq : s.current_weight = (s.current.map p.weight).sum
  protected_eq : s.current_protected = s.current.countP p.isProtected
  nodup : s.current.Nodup
  lt : ∀ x ∈ s.current, x < p.nodeCount
  mandatory : ∀ x, isMandatoryMember p x = true → x ∈ s.current
  disjoint : ∀ x ∈ s.excluded, x ∉ s.current
  /-- The trace of a set under the node passes through the node. -/
  traced : ∀ cut leaf, (∀ x ∈ s.current, x ∈ cut) → (∀ x ∈ s.excluded, x ∉ cut) →
    (∀ x ∈ cut, p.isContainable x = true) → Traced p cut s.included leaf →
    Traced p cut p.rootIncluded leaf

/-- A witness the search may record: one that checks, or the root's path when no source is
mandatory and all of the path is containable. -/
def WitnessOk (p : ContainmentProblem) (path : List NodeIndex) : Prop :=
  verifyInfeasibilityWitness p path = true ∨
    (p.rootIncluded = [] ∧ path = shortestResidualPath p [] ∧ path ≠ [] ∧
      ∀ x ∈ path, p.isContainable x = true)

/-- What the search has found is valid. -/
structure Found (p : ContainmentProblem) (max_explored_nodes : UInt64) (s : ExactState) : Prop where
  best : ∀ members objective, s.best = some (members, objective) →
    p.Accepts members ∧ objective = p.objectiveOf members ∧ p.Traceable members
  witness : ∀ path, s.witness = some path → WitnessOk p path
  exhausted : s.counters.budget_exhausted = s.aborted
  exceeded : s.aborted = true → s.counters.explored_nodes > max_explored_nodes

/-- The marks are as they were. -/
structure Frame (s s' : ExactState) : Prop where
  included : s'.included = s.included
  excluded : s'.excluded = s.excluded
  current : s'.current = s.current
  current_weight : s'.current_weight = s.current_weight
  current_protected : s'.current_protected = s.current_protected

/-- The best set found is no worse than it was. -/
def Improves (p : ContainmentProblem) (best best' : Option (List NodeIndex × ObjectiveVector)) :
    Prop :=
  ∀ b, best = some b → ∃ b', best' = some b' ∧
    objectiveKey p.minimize_protected_inclusions b'.2 ≤
      objectiveKey p.minimize_protected_inclusions b.2

/-- The best set found is no worse than any traceable set under a node. -/
def Covers (p : ContainmentProblem) (included excluded : List NodeIndex)
    (best : Option (List NodeIndex × ObjectiveVector)) : Prop :=
  ∀ cut leaf, p.Accepts cut → (∀ x ∈ included, x ∈ cut) → (∀ x ∈ excluded, x ∉ cut) →
    Traced p cut included leaf → p.HoldsOverlap leaf →
    ∃ b, best = some b ∧ objectiveKey p.minimize_protected_inclusions b.2 ≤
      objectiveKey p.minimize_protected_inclusions (p.objectiveOf cut)

/-- What a search from `s` that ends in `s'` has done. -/
structure Outcome (p : ContainmentProblem) (max_explored_nodes : UInt64) (s s' : ExactState) :
    Prop where
  frame : Frame s s'
  found : Found p max_explored_nodes s'
  improves : Improves p s.best s'.best
  sticky : s.aborted = true → s'.aborted = true
  covers : s'.aborted = false → Covers p s.included s.excluded s'.best
  /-- Below the root a witness is recorded on a path without a containable node only. -/
  keeps : (∀ x ∈ p.protected_nodes, p.isContainable x = true) → s.current ≠ [] →
    s'.witness = s.witness

variable {p : ContainmentProblem} {max_explored_nodes : UInt64} {s s' s'' : ExactState}

theorem Frame.refl (s : ExactState) : Frame s s := ⟨rfl, rfl, rfl, rfl, rfl⟩

theorem Frame.trans (h : Frame s s') (h' : Frame s' s'') : Frame s s'' :=
  ⟨h'.included.trans h.included, h'.excluded.trans h.excluded, h'.current.trans h.current,
    h'.current_weight.trans h.current_weight, h'.current_protected.trans h.current_protected⟩

theorem Improves.refl (best : Option (List NodeIndex × ObjectiveVector)) : Improves p best best :=
  fun b hb => ⟨b, hb, le_rfl⟩

theorem Improves.trans {b b' b'' : Option (List NodeIndex × ObjectiveVector)}
    (h : Improves p b b') (h' : Improves p b' b'') : Improves p b b'' := by
  intro x hx
  obtain ⟨x', hx', hle⟩ := h x hx
  obtain ⟨x'', hx'', hle'⟩ := h' x' hx'
  exact ⟨x'', hx'', le_trans hle' hle⟩

/-- Covering is kept when the best set improves. -/
theorem Covers.improves {included excluded : List NodeIndex}
    {best best' : Option (List NodeIndex × ObjectiveVector)}
    (h : Covers p included excluded best) (hi : Improves p best best') :
    Covers p included excluded best' := by
  intro cut leaf hacc hin hex htr hov
  obtain ⟨b, hb, hle⟩ := h cut leaf hacc hin hex htr hov
  obtain ⟨b', hb', hle'⟩ := hi b hb
  exact ⟨b', hb', le_trans hle' hle⟩

/-- The marks determine whether a state is a node. -/
theorem Node.frame (h : Node p s) (hf : Frame s s') : Node p s' where
  included_eq := by rw [hf.included, hf.current, h.included_eq]
  weight_eq := by rw [hf.current_weight, hf.current, h.weight_eq]
  protected_eq := by rw [hf.current_protected, hf.current, h.protected_eq]
  nodup := hf.current ▸ h.nodup
  lt := hf.current ▸ h.lt
  mandatory := hf.current ▸ h.mandatory
  disjoint := by rw [hf.current, hf.excluded]; exact h.disjoint
  traced := by rw [hf.current, hf.excluded, hf.included]; exact h.traced

/-- The nodes under construction are no more than the nodes of the graph. -/
theorem Node.length_le (h : Node p s) : s.current.length ≤ p.nodeCount := by
  have hsub : ∀ x ∈ s.current, x ∈ List.range p.nodeCount :=
    fun x hx => List.mem_range.mpr (h.lt x hx)
  simpa using length_le_of_subset h.nodup hsub

theorem Node.mem_included (h : Node p s) {x : NodeIndex} : x ∈ s.included ↔ x ∈ s.current := by
  rw [h.included_eq, List.mem_reverse]

end ExactState

end Fcfn
