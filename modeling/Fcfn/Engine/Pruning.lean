import Fcfn.Engine.ExactSpec

/-!
# The pruning bound

The bound that prunes the exact search is admissible for every choice of marks and every number of
rounds (`disjointPathBound_admissible`): what is included, with the bound, weighs no more than any
completion. The path that is handed back when there is no bound is a second result of the same
loop, `disjointPathWitness`, which the search itself drops. -/

namespace Fcfn

open Sorted Walks

namespace ContainmentProblem

variable {p : ContainmentProblem} {cut excluded : List NodeIndex}

/-- The path the bound hands back when it cannot be completed. -/
def disjointPathWitness (p : ContainmentProblem) (excluded : List NodeIndex) :
    ℕ → List NodeIndex → ℕ → Option (List NodeIndex)
  | 0, _, _ => none
  | rounds + 1, blocked, bound =>
    let path := shortestResidualPath p blocked
    if path = [] then none
    else
      let cheapest := path.foldl (cheaper p excluded) (none, kMaxUInt64)
      match cheapest.1 with
      | none => some path
      | some _ =>
        match checkedAdd bound cheapest.2 with
        | none => none
        | some bound =>
          let eligible :=
            path.filter (fun node => p.isContainable node && !decide (node ∈ excluded))
          disjointPathWitness p excluded rounds (eligible ++ blocked) bound

/-- A path is handed back exactly when there is no bound. -/
theorem disjointPathWitness_isSome (excluded : List NodeIndex) (rounds : ℕ)
    (blocked : List NodeIndex) (bound : ℕ) (checked : UInt64) :
    (disjointPathWitness p excluded rounds blocked bound).isSome ↔
      (disjointPathBound p excluded rounds blocked bound checked).1 = none := by
  induction rounds generalizing blocked bound checked with
  | zero => simp [disjointPathWitness, disjointPathBound]
  | succ rounds ih =>
    rw [disjointPathWitness, disjointPathBound]
    by_cases hpath : shortestResidualPath p blocked = []
    · simp [hpath]
    · simp only [if_neg hpath]
      -- both loops choose the same node, and go on alike
      generalize (shortestResidualPath p blocked).foldl (cheaper p excluded) (none, kMaxUInt64) = c
      obtain ⟨cheapest, w⟩ := c
      cases cheapest with
      | none => simp
      | some c =>
        simp only
        cases checkedAdd bound w with
        | none => simp
        | some bound => exact ih _ _ _

/-- The path handed back is a residual path without an eligible node. -/
theorem disjointPathWitness_spec (excluded : List NodeIndex) (rounds : ℕ)
    (blocked : List NodeIndex) (bound : ℕ) {path : List NodeIndex}
    (h : disjointPathWitness p excluded rounds blocked bound = some path) :
    Walk p.graph.Conservative {x | x ∈ p.sources} {x | x ∈ p.protected_nodes} path ∧
      (∀ x ∈ path, x ∉ blocked) ∧ ∀ x ∈ path, ¬ p.Eligible excluded x := by
  induction rounds generalizing blocked bound with
  | zero => simp [disjointPathWitness] at h
  | succ rounds ih =>
    rw [disjointPathWitness] at h
    by_cases hpath : shortestResidualPath p blocked = []
    · simp [hpath] at h
    · simp only [if_neg hpath] at h
      obtain ⟨-, -, -, hsome⟩ := foldl_cheaper_spec p excluded
        (shortestResidualPath p blocked) (none, kMaxUInt64)
      generalize (shortestResidualPath p blocked).foldl (cheaper p excluded) (none, kMaxUInt64) = c
        at h hsome
      obtain ⟨cheapest, w⟩ := c
      cases cheapest with
      | none =>
        -- no node of the path could be chosen, so none of them is eligible
        obtain rfl := Option.some.inj h
        refine ⟨residual_walk hpath, (residual_path hpath).unblocked, fun x hx helig => ?_⟩
        exact absurd (hsome x hx helig (p.weight_lt x)) (by simp)
      | some c =>
        simp only at h
        split at h
        · exact absurd h (by simp)
        · obtain ⟨hwalk, hout, hnone⟩ := ih _ _ h
          exact ⟨hwalk, fun x hx hb => hout x hx (List.mem_append_right _ hb), hnone⟩

/-- The weight of a set is that of the nodes it has to include and of the rest. -/
theorem weight_included {included : List NodeIndex} (hnd : cut.Nodup)
    (hincl : ∀ x ∈ included, x ∈ cut) :
    (cut.map p.weight).sum = (included.dedup.map p.weight).sum +
      ((cut.filter fun x => decide (x ∉ included)).map p.weight).sum := by
  have := weight_split (p := p) (List.nodup_dedup included)
    (fun x hx => hincl x (List.mem_dedup.mp hx)) hnd
  simpa only [List.mem_dedup] using this

/-- The bound is admissible, whatever the marks and the number of rounds: an accepted set that holds
the included nodes and no excluded node weighs at least the bound more than the included nodes.
Without a bound there is no such set, and the path handed back leads from a source to an obligation
through nodes that may not be contained or are excluded. -/
theorem disjointPathBound_admissible {graph : PropagationGraph} {spec : ContainmentInstanceSpec}
    (hbuild : build graph spec = .ok p) (included excluded : List NodeIndex) (iteration_cap : ℕ)
    (checked : UInt64) :
    (∀ bound,
      (disjointPathBound p excluded iteration_cap included 0 checked).1 = some bound →
      ∀ cut objective, verifyCut p cut = .ok objective → (∀ x ∈ included, x ∈ cut) →
        (∀ x ∈ cut, x ∉ excluded) →
        (included.dedup.map p.weight).sum + bound ≤ objective.total_weight) ∧
    ((disjointPathBound p excluded iteration_cap included 0 checked).1 = none →
      (∀ cut objective, verifyCut p cut = .ok objective → (∀ x ∈ included, x ∈ cut) →
        ∃ x ∈ cut, x ∈ excluded) ∧
      ∃ path, disjointPathWitness p excluded iteration_cap included 0 = some path ∧
        Walk p.graph.Conservative {x | x ∈ p.sources} {x | x ∈ p.protected_nodes} path ∧
        ∀ x ∈ path, p.isContainable x = false ∨ x ∈ excluded) := by
  have hp := build_wellFormed hbuild
  have hle {cut : List NodeIndex} (hacc : p.Accepts cut) (hexcl : ∀ x ∈ cut, x ∉ excluded) :=
    disjointPathBound_le hp hacc hexcl included iteration_cap included 0 checked (fun _ h => h)
      (Nat.zero_le _)
  refine ⟨fun bound hbound cut objective hcut hincl hexcl => ?_, fun hnone => ⟨?_, ?_⟩⟩
  · obtain ⟨hacc, rfl⟩ := (verifyCut_eq_ok_iff hp).mp hcut
    obtain ⟨b, hb, hrest⟩ := hle hacc hexcl
    rw [hbound] at hb
    obtain rfl := Option.some.inj hb
    have hsum := weight_included (p := p) hacc.nodup hincl
    simp only [objectiveOf]
    omega
  · intro cut objective hcut _
    obtain ⟨hacc, -⟩ := (verifyCut_eq_ok_iff hp).mp hcut
    -- a set without an excluded node would give the loop a bound
    by_contra hexcl
    push Not at hexcl
    obtain ⟨b, hb, -⟩ := hle hacc hexcl
    rw [hnone] at hb
    exact absurd hb (by simp)
  · obtain ⟨path, hpath⟩ := Option.isSome_iff_exists.mp
      ((disjointPathWitness_isSome excluded iteration_cap included 0 checked).mpr hnone)
    obtain ⟨hwalk, -, helig⟩ := disjointPathWitness_spec excluded iteration_cap included 0 hpath
    refine ⟨path, hpath, hwalk, fun x hx => ?_⟩
    have := helig x hx
    rw [Eligible, not_and, not_not] at this
    exact (Bool.eq_false_or_eq_true (p.isContainable x)).symm.imp_right this

/-- On the chain the bound is a node's weight; with the source and the relay excluded no set is
accepted. -/
theorem disjointPathBound_admissible_chain :
    (∀ cut objective, verifyCut chainProblem cut = .ok objective → 3 ≤ objective.total_weight) ∧
      ∀ cut objective, verifyCut chainProblem cut = .ok objective → ∃ x ∈ cut, x ∈ [0, 2] :=
  ⟨fun cut objective h =>
      (disjointPathBound_admissible (eq_ok_value _) [] [] 8 0).1 3 (by decide +kernel) cut objective
        h (by simp) (by simp),
    fun cut objective h =>
      ((disjointPathBound_admissible (eq_ok_value _) [] [0, 2] 8 0).2 (by decide +kernel)).1 cut
        objective h (by simp)⟩

end ContainmentProblem

end Fcfn
