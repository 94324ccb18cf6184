import Fcfn.Engine.ExactSpec

/-!
# Infeasibility certificates

The heuristic's dead end and a search node without a containable path node record a path that
`verifyInfeasibilityWitness` accepts. The root of the exact search also records its path when every
node of it has been excluded without a set being found; that path is made of containable nodes,
and the checker refuses it. `certificates_check_iff` says exactly when the certificates of a problem
check. -/

namespace Fcfn

open Sorted Walks Words ContainmentProblem ExactState

/-! ## The heuristic -/

section Heuristic

variable {p : ContainmentProblem}

/-- The cheapest node on a path is none only when no node of it is containable. -/
theorem foldl_cheapestOnPath_eq_none {path : List NodeIndex} {start : Option NodeIndex}
    (h : path.foldl (cheapestOnPath p) start = none) :
    start = none ∧ ∀ x ∈ path, p.isContainable x = false := by
  induction path generalizing start with
  | nil => exact ⟨h, by simp⟩
  | cons x path ih =>
    obtain ⟨hstep, hrest⟩ := ih h
    unfold cheapestOnPath at hstep
    split at hstep
    · rename_i hx
      refine ⟨hstep, fun y hy => ?_⟩
      rcases List.mem_cons.mp hy with rfl | hy
      · simpa using hx
      · exact hrest y hy
    · split at hstep
      · exact absurd hstep (by simp)
      · split at hstep <;> exact absurd hstep (by simp)

/-- The dead end of the construction is a path that certifies infeasibility. -/
theorem construct_deadEnd {max_iterations iterations : UInt64} {fuel : ℕ}
    {members path : List NodeIndex}
    (h : construct p max_iterations fuel iterations members = .deadEnd path) :
    verifyInfeasibilityWitness p path = true := by
  induction fuel generalizing iterations members with
  | zero => simp [construct] at h
  | succ fuel ih =>
    rw [construct] at h
    split at h
    · exact absurd h (by simp)
    · simp only at h
      split at h
      · exact absurd h (by simp)
      · rename_i hne
        split at h
        · rename_i hnone
          simp only [Construction.deadEnd.injEq] at h
          subst h
          exact witness_of_ineligible hne (foldl_cheapestOnPath_eq_none hnone).2
        · exact ih h

/-- What the heuristic promises of its answer. -/
structure HeuristicSpec (p : ContainmentProblem) (r : CutSolution) : Prop where
  /-- The heuristic never claims optimality. -/
  status : r.status = .feasibleNotProvenOptimal ∨ r.status = .provenInfeasible ∨
    r.status = .limitReachedNoSolution
  /-- A reported set is accepted with the reported objective. -/
  found : r.status = .feasibleNotProvenOptimal → verifyCut p r.members = .ok r.objective
  /-- The infeasible answer comes with a certificate. -/
  infeasible : r.status = .provenInfeasible → r.has_infeasibility_witness = true
  witness : r.has_infeasibility_witness = true →
    verifyInfeasibilityWitness p r.infeasibility_path = true

/-- The heuristic keeps its promises. -/
theorem solveHeuristic_spec (p : ContainmentProblem) (budget : SolveBudget) :
    HeuristicSpec p (solveHeuristic p budget) := by
  rw [solveHeuristic]
  simp only
  split
  · rename_i path hpath
    exact ⟨by simp, by simp, by simp, fun _ => construct_deadEnd hpath⟩
  · exact ⟨by simp, by simp, by simp, by simp⟩
  · split
    · exact ⟨by simp, by simp, by simp, by simp⟩
    · rename_i objective hobj
      exact ⟨by simp, fun _ => hobj, by simp, by simp⟩

end Heuristic

/-! ## The root of the exact search -/

namespace ExactState

variable {p : ContainmentProblem}

/-- A search at the root that ends without a set records the root's path when all of it and all
obligations are containable. -/
theorem search_root_witness (hp : p.WellFormed) {max_explored_nodes : UInt64} {fuel : ℕ}
    {s : ExactState} (hn : Node p s) (hf : Found p max_explored_nodes s)
    (hdepth : p.nodeCount ≤ fuel) (hcur : s.current = []) (hexc : s.excluded = [])
    (hbest : s.best = none) (hwit : s.witness = none) (hs : s.aborted = false)
    (hopen : ∀ x ∈ p.protected_nodes, p.isContainable x = true)
    (hpath : shortestResidualPath p [] ≠ [])
    (hall : ∀ x ∈ shortestResidualPath p [], p.isContainable x = true)
    (hend : (search p max_explored_nodes (fuel + 1) s).aborted = false)
    (hnone : (search p max_explored_nodes (fuel + 1) s).best = none) :
    (search p max_explored_nodes (fuel + 1) s).witness = some (shortestResidualPath p []) := by
  have hincl : s.included = [] := by rw [hn.included_eq, hcur, List.reverse_nil]
  have hweight : s.current_weight = 0 := by rw [hn.weight_eq, hcur]; rfl
  have hn₁ : Node p s.explore := hn.frame ⟨rfl, rfl, rfl, rfl, rfl⟩
  have hf₁ : Found p max_explored_nodes s.explore := found_counters hf hs rfl
  have hexplore : s.explore.included = [] ∧ s.explore.excluded = [] ∧ s.explore.current = [] ∧
      s.explore.best = none ∧ s.explore.witness = none ∧ s.explore.aborted = false ∧
      s.explore.current_weight = 0 := ⟨hincl, hexc, hcur, hbest, hwit, hs, hweight⟩
  rw [search, if_neg (by simp [hs])] at hend hnone ⊢
  simp only at hend hnone ⊢
  generalize s.explore = s₁ at hn₁ hf₁ hexplore hend hnone ⊢
  obtain ⟨hincl₁, hexc₁, hcur₁, hbest₁, hwit₁, hs₁, hweight₁⟩ := hexplore
  -- The search cannot stop before the branches.
  split at hend
  · exact absurd hend (by simp [abort])
  rename_i hbudget
  rw [if_neg hbudget] at hnone ⊢
  have hsmall : ¬ (decide (s₁.current.length > p.max_members) ||
      decide (s₁.current_weight > p.max_total_weight)) = true := by simp [hcur₁, hweight₁]
  obtain ⟨x, hx, hc⟩ := exists_containable hopen hpath
  have hnot : ¬ ((shortestResidualPath p []).all fun node => !p.isContainable node) = true := by
    rw [List.all_eq_true]
    exact fun h => absurd hc (by simpa using h x hx)
  have hbound : boundStep p s₁ = (s₁, false) := by rw [boundStep, hbest₁]
  rw [hincl₁, hbound, if_neg hsmall, if_neg hpath, if_neg hnot] at hend hnone ⊢
  simp only [Bool.false_eq_true, if_false] at hend hnone ⊢
  have hsearch := search_searches hp max_explored_nodes fuel
  have hb := branch_branched hp hsearch hn₁ (by rw [hcur₁]; simpa using hdepth)
    (by rw [hincl₁]; exact hpath) (shortestResidualPath p []) [] [] s₁
    (by rw [hincl₁, List.nil_append]) ⟨Frame.refl s₁, by simp, by simp, hf₁⟩ hs₁
  obtain ⟨more, hmore, hsub, -⟩ := branch_excluded (p := p) (search p max_explored_nodes fuel)
    (shortestResidualPath p []) [] s₁
  rw [List.nil_append] at hmore
  generalize branch p (search p max_explored_nodes fuel) (shortestResidualPath p []) [] s₁ = r
    at hb hmore hend hnone ⊢
  obtain ⟨s₂, here⟩ := r
  simp only at hb hmore hend hnone ⊢
  subst hmore
  have hend₂ : s₂.aborted = false := by
    rw [closeBranch] at hend
    split at hend <;> exact hend
  have hnone₂ : s₂.best = none := by
    rw [closeBranch] at hnone
    split at hnone <;> exact hnone
  -- Every node of the path was searched and excluded.
  have hlen : here.length = (shortestResidualPath p []).length := by
    refine le_antisymm hsub.length_le (length_le_of_subset (residual_path hpath).nodup ?_)
    intro y hy
    rcases hb.passed hend₂ y (by rw [hincl₁]; exact hy) with hex | hex
    · rw [hb.frame.excluded] at hex
      simpa [withHere, hexc₁] using hex
    · exact absurd (hall y hy) (by simp [hex])
  have hcur₂ : s₂.current = [] := by rw [hb.frame.current]; exact hcur₁
  have hwit₂ : s₂.witness = none := by rw [hb.keeps hopen, hwit₁]
  rw [closeBranch, if_pos (by simp [unexclude, hend₂, hnone₂, hlen, hcur₂, hwit₂])]
  rfl

end ExactState

/-! ## Certificates -/

/-- The root's path is free of certificates by exclusion: some source is mandatory, or a node of
the path may not be contained, or the residual paths lead to an accepted set. -/
def RootPathHarmless (p : ContainmentProblem) : Prop :=
  (∃ s, isMandatoryMember p s = true) ∨
    (∃ x ∈ shortestResidualPath p [], p.isContainable x = false) ∨
    shortestResidualPath p [] = [] ∨
    ∃ cut objective, verifyCut p cut = .ok objective ∧ p.Traceable cut

/-- On a problem whose root path is harmful, the exact solver with the largest budget gives the
root's path as its certificate. -/
theorem solveExact_root_witness {p : ContainmentProblem} (hp : p.WellFormed)
    (h : ¬ RootPathHarmless p) :
    (solveExact p ⟨UInt64.ofNat kMaxUInt64, 0⟩).has_infeasibility_witness = true ∧
      (solveExact p ⟨UInt64.ofNat kMaxUInt64, 0⟩).infeasibility_path =
        shortestResidualPath p [] := by
  simp only [RootPathHarmless, not_or, not_exists, not_and] at h
  obtain ⟨hmand, hall, hpath, hno⟩ := h
  have hall' : ∀ x ∈ shortestResidualPath p [], p.isContainable x = true :=
    fun x hx => by simpa using hall x hx
  -- The last node of the path is an obligation, so policy makes them all containable.
  obtain ⟨-, -, t, ht, hlast⟩ := residual_walk hpath
  have hallow : p.allow_protected_inclusion = true := by
    rw [← hp.containable_protected t ht]
    exact hall' t (List.mem_of_getLast? hlast)
  have hopen : ∀ x ∈ p.protected_nodes, p.isContainable x = true :=
    fun x hx => by rw [hp.containable_protected x hx, hallow]
  have hab : (finalState p ⟨UInt64.ofNat kMaxUInt64, 0⟩).aborted = false :=
    not_aborted hp (Or.inr (by decide))
  have hbest : (finalState p ⟨UInt64.ofNat kMaxUInt64, 0⟩).best = none := by
    cases hb : (finalState p ⟨UInt64.ofNat kMaxUInt64, 0⟩).best with
    | none => rfl
    | some b =>
      obtain ⟨hacc, -, htr⟩ := (outcome_finalState hp _).found.best b.1 b.2 hb
      exact absurd htr (hno b.1 _ ((verifyCut_eq_ok_iff hp).mpr ⟨hacc, rfl⟩))
  have hroot : p.sources.filter (isMandatoryMember p) = [] := by
    rw [List.filter_eq_nil_iff]
    exact fun x _ => hmand x
  have heq := rootState_eq p ⟨UInt64.ofNat kMaxUInt64, 0⟩
  have hwit : (finalState p ⟨UInt64.ofNat kMaxUInt64, 0⟩).witness =
      some (shortestResidualPath p []) :=
    search_root_witness hp (node_rootState hp) found_rootState le_rfl (by rw [heq]; exact hroot)
      (by rw [heq]) (by rw [heq]) (by rw [heq]) (by rw [heq]) hopen hpath hall' hab hbest
  have hexh := (outcome_finalState hp ⟨UInt64.ofNat kMaxUInt64, 0⟩).found.exhausted
  rw [hab] at hexh
  rw [solveExact_eq hp, solution, hbest]
  simp [hexh, hwit]

/-- The certificates of a built problem check, and then no set is accepted, exactly when its root
path is harmless. -/
theorem certificates_check_iff {graph : PropagationGraph} {spec : ContainmentInstanceSpec}
    {p : ContainmentProblem} (hbuild : ContainmentProblem.build graph spec = .ok p) :
    (∀ (budget : SolveBudget) (exact_node_limit : ℕ) (r : CutSolution),
      r = solveExact p budget ∨ r = solveHeuristic p budget ∨ r = solve p budget exact_node_limit →
      r.has_infeasibility_witness = true →
      verifyInfeasibilityWitness p r.infeasibility_path = true ∧
        ∀ cut objective, verifyCut p cut ≠ .ok objective) ↔
    RootPathHarmless p := by
  have hp := build_wellFormed hbuild
  constructor
  · intro hclaim
    by_contra hharm
    obtain ⟨hwit, hpath⟩ := solveExact_root_witness hp hharm
    have hcheck := (hclaim _ 0 _ (Or.inl rfl) hwit).1
    simp only [RootPathHarmless, not_or, not_exists, not_and] at hharm
    rw [hpath] at hcheck
    simp only [verifyInfeasibilityWitness, Bool.and_eq_true, List.all_eq_true,
      Bool.not_eq_true'] at hcheck
    obtain ⟨x, hx⟩ := List.exists_mem_of_ne_nil _ hharm.2.2.1
    exact hharm.2.1 x hx (hcheck.1.2 x hx)
  · intro hsafe
    have hchecks (path : List NodeIndex) (h : verifyInfeasibilityWitness p path = true) :
        verifyInfeasibilityWitness p path = true ∧
          ∀ cut objective, verifyCut p cut ≠ .ok objective :=
      ⟨h, fun cut objective hcut =>
        not_accepts_of_witness h ((verifyCut_eq_ok_iff hp).mp hcut).1⟩
    have hheuristic (budget : SolveBudget)
        (hw : (solveHeuristic p budget).has_infeasibility_witness = true) :=
      hchecks _ ((solveHeuristic_spec p budget).witness hw)
    have hexact (budget : SolveBudget)
        (hw : (solveExact p budget).has_infeasibility_witness = true) :
        verifyInfeasibilityWitness p (solveExact p budget).infeasibility_path = true ∧
          ∀ cut objective, verifyCut p cut ≠ .ok objective := by
      obtain ⟨hstatus, hok | ⟨hroot, hpath, hne, hall⟩⟩ := (solveExact_spec hp budget).witness hw
      · exact hchecks _ hok
      · -- The harmless root path leaves no room for the certificate by exclusion.
        rcases hsafe with ⟨s, hs⟩ | ⟨x, hx, hc⟩ | hnil | ⟨cut, objective, hcut, htr⟩
        · have := mem_rootIncluded.mpr hs
          rw [hroot] at this
          exact absurd this (by simp)
        · exact absurd (hall x (hpath ▸ hx)) (by simp [hc])
        · exact absurd (hpath.trans hnil) hne
        · exact absurd htr ((solveExact_spec hp budget).infeasible hstatus cut
            ((verifyCut_eq_ok_iff hp).mp hcut).1)
    intro budget exact_node_limit r hr hw
    rcases hr with rfl | rfl | rfl
    · exact hexact budget hw
    · exact hheuristic budget hw
    · rw [solve] at hw ⊢
      split
      · rename_i hle
        rw [if_pos hle] at hw
        exact hexact budget hw
      · rename_i hle
        rw [if_neg hle] at hw
        exact hheuristic budget hw

/-- The problem of the chain with obligations allowed and no room for any member. -/
def tightProblem : ContainmentProblem :=
  value (ContainmentProblem.build (.build chain) (chainInstance true 2)) (by decide +kernel)

/-- The exact solver gives a certificate for the tight chain that the checker refuses. -/
theorem certificate_refused :
    ContainmentProblem.build (.build chain) (chainInstance true 2) = .ok tightProblem ∧
      (solveExact tightProblem ⟨1000, 1000⟩).has_infeasibility_witness = true ∧
      (solveExact tightProblem ⟨1000, 1000⟩).infeasibility_path = [2, 0, 1] ∧
      verifyInfeasibilityWitness tightProblem [2, 0, 1] = false :=
  ⟨eq_ok_value _, by decide +kernel, by decide +kernel, by decide +kernel⟩

/-- The root path of the chain is harmless, since its obligation may not be contained, and so its
certificates check. -/
theorem certificates_check_chain :
    RootPathHarmless chainProblem ∧
      ∀ (budget : SolveBudget) (exact_node_limit : ℕ) (r : CutSolution),
        r = solveExact chainProblem budget ∨ r = solveHeuristic chainProblem budget ∨
          r = solve chainProblem budget exact_node_limit →
        r.has_infeasibility_witness = true →
        verifyInfeasibilityWitness chainProblem r.infeasibility_path = true ∧
          ∀ cut objective, verifyCut chainProblem cut ≠ .ok objective :=
  have h : RootPathHarmless chainProblem := Or.inr (Or.inl ⟨1, by decide +kernel⟩)
  ⟨h, (certificates_check_iff (eq_ok_value _)).mpr h⟩

end Fcfn
