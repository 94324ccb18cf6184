import Fcfn.Engine.Residual

/-!
# The disjoint-path lower bound

Residual paths that share no eligible node each need a member of their own, so the sum of their
cheapest eligible nodes is at most what any completion adds (`disjointPathBound_le`). A residual
path without an eligible node has no completion at all. -/

namespace Fcfn

open Sorted Walks

namespace ContainmentProblem

variable {p : ContainmentProblem} {cut cut' excluded : List NodeIndex}

/-- A part of a set has no more weight. -/
theorem weight_le_of_subset (hnd : cut.Nodup) (hsub : ∀ x ∈ cut, x ∈ cut') (hnd' : cut'.Nodup) :
    (cut.map p.weight).sum ≤ (cut'.map p.weight).sum := by
  have := weight_split (p := p) hnd hsub hnd'
  omega

/-- A weight is below the largest 64-bit value. -/
theorem weight_lt (p : ContainmentProblem) (x : NodeIndex) : p.weight x < kMaxUInt64 := by
  rw [weight, Topology.node, List.getD_eq_getElem?_getD]
  rcases Nat.lt_or_ge x p.graph.topology.nodes.length with hx | hx
  · rw [List.getElem?_eq_getElem hx, Option.getD_some]
    have hle := (p.graph.topology.valid.nodes_valid _ (List.getElem_mem hx)).weight_le
    exact lt_of_le_of_lt hle (by decide)
  · rw [List.getElem?_eq_none hx]
    decide

/-- A node the search may still add. -/
def Eligible (p : ContainmentProblem) (excluded : List NodeIndex) (x : NodeIndex) : Prop :=
  p.isContainable x = true ∧ x ∉ excluded

/-- One comparison: the weight kept is no larger than before and than the node's, and a node is
kept when the weight changed. -/
theorem cheaper_spec (p : ContainmentProblem) (excluded : List NodeIndex)
    (c : Option NodeIndex × ℕ) (x : NodeIndex) :
    (cheaper p excluded c x).2 ≤ c.2 ∧
      (p.Eligible excluded x → (cheaper p excluded c x).2 ≤ p.weight x) ∧
      ((cheaper p excluded c x).1.isSome ∨ cheaper p excluded c x = c) := by
  rw [cheaper]
  split
  · rename_i h
    refine ⟨le_rfl, fun he => ?_, Or.inr rfl⟩
    simp [he.1, he.2] at h
  · split
    · rename_i h
      simp only [Bool.or_eq_true, decide_eq_true_eq, Bool.and_eq_true, beq_iff_eq] at h
      exact ⟨by simp only; omega, fun _ => le_rfl, Or.inl rfl⟩
    · rename_i h
      simp only [Bool.or_eq_true, decide_eq_true_eq, not_or] at h
      exact ⟨le_rfl, fun _ => by omega, Or.inr rfl⟩

/-- The cheapest eligible node of a path: its weight is at most that of each eligible node, and it
exists as soon as one of them weighs less than the start value. -/
theorem foldl_cheaper_spec (p : ContainmentProblem) (excluded path : List NodeIndex)
    (c : Option NodeIndex × ℕ) :
    (path.foldl (cheaper p excluded) c).2 ≤ c.2 ∧
      (∀ x ∈ path, p.Eligible excluded x →
        (path.foldl (cheaper p excluded) c).2 ≤ p.weight x) ∧
      (c.1.isSome → (path.foldl (cheaper p excluded) c).1.isSome) ∧
      ∀ x ∈ path, p.Eligible excluded x → p.weight x < c.2 →
        (path.foldl (cheaper p excluded) c).1.isSome := by
  induction path generalizing c with
  | nil => simp
  | cons y path ih =>
    obtain ⟨hle, helig, hsome⟩ := cheaper_spec p excluded c y
    obtain ⟨ih1, ih2, ih3, ih4⟩ := ih (cheaper p excluded c y)
    rw [List.foldl_cons]
    refine ⟨le_trans ih1 hle, fun x hx he => ?_, fun hc => ih3 ?_, fun x hx he hlt => ?_⟩
    · rcases List.mem_cons.mp hx with rfl | hx
      · exact le_trans ih1 (helig he)
      · exact ih2 x hx he
    · exact hsome.elim id (fun h => by rw [h]; exact hc)
    · rcases hsome with h | h
      · exact ih3 h
      · rcases List.mem_cons.mp hx with rfl | hx
        · have := helig he
          rw [h] at this
          omega
        · exact ih4 x hx he (by rw [h]; exact hlt)

/-- The bound is at most the weight that any accepted set without excluded nodes has outside the
nodes included at the start, and the paths looked at leave such a set a node each. -/
theorem disjointPathBound_le (hp : p.WellFormed) (hacc : p.Accepts cut)
    (hexcl : ∀ x ∈ cut, x ∉ excluded) (included : List NodeIndex) (rounds : ℕ)
    (blocked : List NodeIndex) (bound : ℕ) (checked : UInt64)
    (hincl : ∀ x ∈ included, x ∈ blocked)
    (hbound : bound ≤ ((cut.filter fun x => decide (x ∈ blocked ∧ x ∉ included)).map
      p.weight).sum) :
    ∃ b, (disjointPathBound p excluded rounds blocked bound checked).1 = some b ∧
      b ≤ ((cut.filter fun x => decide (x ∉ included)).map p.weight).sum := by
  have hdone {b : ℕ} {blocked : List NodeIndex}
      (h : b ≤ ((cut.filter fun x => decide (x ∈ blocked ∧ x ∉ included)).map p.weight).sum) :
      b ≤ ((cut.filter fun x => decide (x ∉ included)).map p.weight).sum := by
    refine le_trans h (weight_le_of_subset (hacc.nodup.filter _) (fun x hx => ?_)
      (hacc.nodup.filter _))
    simp only [List.mem_filter, decide_eq_true_eq] at hx ⊢
    exact ⟨hx.1, hx.2.2⟩
  induction rounds generalizing blocked bound checked with
  | zero => exact ⟨bound, rfl, hdone hbound⟩
  | succ rounds ih =>
    rw [disjointPathBound]
    by_cases hpath : shortestResidualPath p blocked = []
    · simp only [if_pos hpath]
      exact ⟨bound, rfl, hdone hbound⟩
    · simp only [if_neg hpath]
      obtain ⟨x, hx, hcut⟩ := hacc.separates.meets hpath
      have hxb : x ∉ blocked := (lt_of_mem_residual hp hx).2
      have helig : p.Eligible excluded x := ⟨hacc.containable x hcut, hexcl x hcut⟩
      obtain ⟨-, hmin, -, hsome⟩ := foldl_cheaper_spec p excluded
        (shortestResidualPath p blocked) (none, kMaxUInt64)
      have hsome := hsome x hx helig (p.weight_lt x)
      have hmin := hmin x hx helig
      generalize (shortestResidualPath p blocked).foldl (cheaper p excluded) (none, kMaxUInt64) = c
        at hsome hmin
      obtain ⟨cheapest, w⟩ := c
      obtain ⟨c, rfl⟩ := Option.isSome_iff_exists.mp hsome
      simp only at hmin ⊢
      -- The node of the set on this path is blocked from now on and pays for the path.
      set blocked' := (shortestResidualPath p blocked).filter
        (fun node => p.isContainable node && !decide (node ∈ excluded)) ++ blocked with hblocked'
      have hxb' : x ∈ blocked' := by
        refine List.mem_append_left _ (List.mem_filter.mpr ⟨hx, ?_⟩)
        simp [helig.1, helig.2]
      have hgrow : bound + w ≤
          ((cut.filter fun x => decide (x ∈ blocked' ∧ x ∉ included)).map p.weight).sum := by
        set old := cut.filter fun x => decide (x ∈ blocked ∧ x ∉ included)
        have hnd : (x :: old).Nodup :=
          List.nodup_cons.mpr ⟨fun h => hxb (of_decide_eq_true (List.mem_filter.mp h).2).1, hacc.nodup.filter _⟩
        have hsub : ∀ y ∈ x :: old,
            y ∈ cut.filter fun x => decide (x ∈ blocked' ∧ x ∉ included) := by
          intro y hy
          rcases List.mem_cons.mp hy with rfl | hy
          · simp only [List.mem_filter, decide_eq_true_eq]
            exact ⟨hcut, hxb', fun h => hxb (hincl y h)⟩
          · simp only [old, List.mem_filter, decide_eq_true_eq] at hy ⊢
            exact ⟨hy.1, List.mem_append_right _ hy.2.1, hy.2.2⟩
        have hle := weight_le_of_subset (p := p) hnd hsub (hacc.nodup.filter _)
        rw [List.map_cons, List.sum_cons] at hle
        omega
      have hmax : bound + w ≤ kMaxUInt64 := by
        have h1 := hdone hgrow
        have h2 := weight_le_of_subset (p := p) (hacc.nodup.filter fun x => decide (x ∉ included))
          (fun x hx => (List.mem_filter.mp hx).1) hacc.nodup
        have h3 := hacc.weight_le
        have h4 := hp.max_total_weight_le
        omega
      have hadd : checkedAdd bound w = some (bound + w) := by
        rw [checkedAdd, if_neg (by omega)]
      rw [hadd]
      exact ih blocked' (bound + w) (checked + 1)
        (fun y hy => List.mem_append_right _ (hincl y hy)) hgrow

end ContainmentProblem

end Fcfn
