import Fcfn.Engine.ExactSearch

/-!
# What the exact solver answers

The root of the search is a node, so the outcome of the search says what `solveExact` reports:
a reported set is accepted, and an answer that is not limited is the best traceable set or says
that there is none (`ExactSpec`). The search gives up only past its budget, and `searchSize` bounds
the nodes it explores. When no source is an obligation every accepted set is traceable, so the
answers are about all sets: `solveExact_optimal` and `solveExact_complete`. -/

namespace Fcfn

open Sorted Walks Words

namespace ExactState

open ContainmentProblem

variable {p : ContainmentProblem} {budget : SolveBudget}

/-! ## The root -/

/-- Putting in the nodes of a list, in order. -/
theorem foldl_includeNode (nodes : List NodeIndex) (s : ExactState) :
    nodes.foldl (includeNode p) s =
      { s with
        included := nodes.reverse ++ s.included
        current := s.current ++ nodes
        current_weight := s.current_weight + (nodes.map p.weight).sum
        current_protected := s.current_protected + nodes.countP p.isProtected } := by
  induction nodes generalizing s with
  | nil => simp
  | cons node nodes ih =>
    rw [List.foldl_cons, ih]
    simp only [includeNode, List.reverse_cons, List.append_assoc, List.singleton_append,
      List.map_cons, List.sum_cons, List.countP_cons, ExactState.mk.injEq, true_and, and_true]
    omega

/-- The root state, field by field. -/
theorem rootState_eq (p : ContainmentProblem) (budget : SolveBudget) :
    rootState p budget =
      { included := p.rootIncluded
        current := p.sources.filter (isMandatoryMember p)
        current_weight := ((p.sources.filter (isMandatoryMember p)).map p.weight).sum
        current_protected := (p.sources.filter (isMandatoryMember p)).countP p.isProtected
        counters := {
          candidate_nodes := UInt64.ofNat p.candidates.length
          budget := budget.max_explored_nodes } } := by
  rw [rootState, foldl_includeNode]
  simp [rootIncluded]

/-- The root state is a node of the search. -/
theorem node_rootState (hp : p.WellFormed) : Node p (rootState p budget) := by
  rw [rootState_eq]
  refine ⟨rfl, rfl, rfl, hp.sources_nodup.filter _, fun x hx => ?_, fun x hx => ?_, by simp,
    fun _ _ _ _ _ htr => htr⟩
  · exact hp.sources_lt x (List.mem_of_mem_filter hx)
  · exact List.mem_reverse.mp (mem_rootIncluded.mpr hx)

/-- Nothing has been found at the root. -/
theorem found_rootState : Found p budget.max_explored_nodes (rootState p budget) := by
  rw [rootState_eq]
  exact ⟨by simp, by simp, rfl, by simp⟩

/-- The state the search ends in. -/
def finalState (p : ContainmentProblem) (budget : SolveBudget) : ExactState :=
  search p budget.max_explored_nodes (p.nodeCount + 1) (rootState p budget)

/-- The search from the root has an outcome. -/
theorem outcome_finalState (hp : p.WellFormed) (budget : SolveBudget) :
    Outcome p budget.max_explored_nodes (rootState p budget) (finalState p budget) :=
  search_searches hp _ _ _ (node_rootState hp) found_rootState (Nat.le_add_right _ _)

/-- Unless it gives up, the search ends with a set no worse than every traceable accepted one. -/
theorem finalState_covers (hp : p.WellFormed) (h : (finalState p budget).aborted = false)
    {cut : List NodeIndex} (hacc : p.Accepts cut) (htr : p.Traceable cut) :
    ∃ b, (finalState p budget).best = some b ∧ objectiveKey p.minimize_protected_inclusions b.2 ≤
      objectiveKey p.minimize_protected_inclusions (p.objectiveOf cut) := by
  obtain ⟨leaf, hleaf, hov⟩ := htr
  have hcov := (outcome_finalState hp budget).covers h
  rw [rootState_eq] at hcov
  exact hcov cut leaf hacc (fun x hx => hacc.mandatory (mem_rootIncluded.mp hx)) (by simp) hleaf hov

/-! ## The number of explored nodes -/

/-- The nodes a search explores at most, by its depth: the branches are over the nodes of a path. -/
def searchSize (p : ContainmentProblem) : ℕ → ℕ
  | 0 => 0
  | depth + 1 => 1 + p.nodeCount * searchSize p depth

/-- A residual path has no more nodes than the graph. -/
theorem length_residual_le (hp : p.WellFormed) (blocked : List NodeIndex) :
    (shortestResidualPath p blocked).length ≤ p.nodeCount := by
  by_cases h : shortestResidualPath p blocked = []
  · simp [h]
  · have hsub : ∀ x ∈ shortestResidualPath p blocked, x ∈ List.range p.nodeCount :=
      fun x hx => List.mem_range.mpr (lt_of_mem_residual hp hx).1
    simpa using length_le_of_subset (residual_path h).nodup hsub

/-- The bound step explores no node. -/
theorem explored_boundStep (s : ExactState) :
    (boundStep p s).1.counters.explored_nodes = s.counters.explored_nodes := by
  rw [boundStep]
  split
  · rfl
  · simp only
    split
    · rfl
    · split <;> rfl

/-- Recording a leaf explores no node. -/
theorem explored_recordLeaf (s : ExactState) :
    (s.recordLeaf p).counters = s.counters := by
  rw [recordLeaf]
  split
  · rfl
  · split <;> rfl

/-- What is explored between two states, when the count does not wrap around. -/
def ExploresAtMost (n : ℕ) (s s' : ExactState) : Prop :=
  s.counters.explored_nodes.toNat + n ≤ kMaxUInt64 →
    s'.counters.explored_nodes.toNat ≤ s.counters.explored_nodes.toNat + n

/-- The branches explore the search's nodes once for each node of the path. -/
theorem explored_branch {search : ExactState → ExactState} {n : ℕ}
    (hsearch : ∀ s, ExploresAtMost n s (search s)) (rest here : List NodeIndex) (s : ExactState) :
    ExploresAtMost (rest.length * n) s (branch p search rest here s).1 := by
  induction rest generalizing here s with
  | nil => exact fun _ => Nat.le_add_right _ _
  | cons x rest ih =>
    intro h
    rw [List.length_cons, Nat.succ_mul] at h ⊢
    rw [branch]
    split
    · have := ih here s (by omega)
      omega
    · have h₁ : (search (s.includeNode p x)).counters.explored_nodes.toNat ≤
          s.counters.explored_nodes.toNat + n := hsearch (s.includeNode p x)
            (show s.counters.explored_nodes.toNat + n ≤ kMaxUInt64 by omega)
      have h₂ : ((search (s.includeNode p x)).unincludeNode p x).counters =
          (search (s.includeNode p x)).counters := rfl
      simp only
      split
      · rw [h₂]; omega
      · split
        · rw [h₂]; omega
        · have h₃ := ih (here ++ [x]) (((search (s.includeNode p x)).unincludeNode p x).exclude x)
          have h₄ : (((search (s.includeNode p x)).unincludeNode p x).exclude x).counters =
            (search (s.includeNode p x)).counters := rfl
          rw [ExploresAtMost, h₄] at h₃
          have := h₃ (by omega)
          omega

/-- A search explores no more nodes than `searchSize`. -/
theorem explored_search (hp : p.WellFormed) (max_explored_nodes : UInt64) (fuel : ℕ)
    (s : ExactState) :
    ExploresAtMost (searchSize p fuel) s (search p max_explored_nodes fuel s) := by
  induction fuel generalizing s with
  | zero => exact fun _ => Nat.le_add_right _ _
  | succ fuel ih =>
    intro h
    rw [searchSize] at h ⊢
    rw [search]
    split
    · omega
    -- the counter does not wrap around below the largest number
    have hstep : s.explore.counters.explored_nodes.toNat =
        s.counters.explored_nodes.toNat + 1 := by
      simp only [explore, UInt64.toNat_add, UInt64.toNat_one]
      simp only [kMaxUInt64] at h
      omega
    simp only
    generalize s.explore = s₁ at hstep ⊢
    split
    · simp only [abort]; omega
    split
    · omega
    split
    · rw [explored_recordLeaf]; omega
    split
    · split <;> [simp only [recordWitness]; skip] <;> omega
    · have hbound := explored_boundStep (p := p) s₁
      generalize boundStep p s₁ = r at hbound ⊢
      obtain ⟨s₂, cut⟩ := r
      simp only at hbound ⊢
      split
      · rw [hbound]; omega
      -- a branch is made for each node of a path, and a path has at most as many as the problem
      · have hlen := Nat.mul_le_mul_right (searchSize p fuel) (length_residual_le hp s₁.included)
        have hbranch := explored_branch (p := p) ih (shortestResidualPath p s₁.included) [] s₂
        rw [ExploresAtMost, hbound] at hbranch
        generalize branch p (search p max_explored_nodes fuel)
          (shortestResidualPath p s₁.included) [] s₂ = r at hbranch ⊢
        -- closing a branch leaves the number of nodes as it is
        have hclose : (closeBranch (r.1.unexclude r.2) (shortestResidualPath p s₁.included)
            r.2).counters = r.1.counters := by
          rw [closeBranch]
          split <;> rfl
        rw [hclose]
        have := hbranch (by omega)
        omega

/-- The search gives up on no budget of its size, and never on the largest one. -/
theorem not_aborted (hp : p.WellFormed)
    (hb : searchSize p (p.nodeCount + 1) ≤ budget.max_explored_nodes.toNat ∨
      budget.max_explored_nodes.toNat = kMaxUInt64) :
    (finalState p budget).aborted = false := by
  rw [Bool.eq_false_iff]
  intro hab
  have hexceed := (outcome_finalState hp budget).found.exceeded hab
  rw [gt_iff_lt, UInt64.lt_iff_toNat_lt] at hexceed
  have hlt := UInt64.toNat_lt budget.max_explored_nodes
  have hlt' := UInt64.toNat_lt (finalState p budget).counters.explored_nodes
  rcases hb with hb | hb
  · have hsize := explored_search hp budget.max_explored_nodes (p.nodeCount + 1)
      (rootState p budget)
    have hroot : (rootState p budget).counters.explored_nodes = 0 := by rw [rootState_eq]
    rw [ExploresAtMost, hroot] at hsize
    have := hsize (by simp only [UInt64.toNat_zero, kMaxUInt64]; omega)
    simp only [UInt64.toNat_zero] at this
    rw [finalState] at hexceed
    omega
  · rw [kMaxUInt64] at hb
    omega

end ExactState

/-! ## The answer -/

open ContainmentProblem ExactState

/-- What the exact solver promises of its answer. -/
structure ExactSpec (p : ContainmentProblem) (budget : SolveBudget) (r : CutSolution) : Prop where
  /-- The problem is never found invalid. -/
  valid : r.status ≠ .invalidProblem
  /-- A reported set is accepted with the reported objective. -/
  found : r.status = .provenOptimal ∨ r.status = .feasibleNotProvenOptimal →
    p.Accepts r.members ∧ r.objective = p.objectiveOf r.members ∧ p.Traceable r.members
  /-- Every other traceable set is worse than an optimal one. -/
  optimal : r.status = .provenOptimal → ∀ cut, p.Accepts cut → p.Traceable cut →
    cut.Perm r.members ∨
      objectiveLess r.objective (p.objectiveOf cut) p.minimize_protected_inclusions = true
  /-- Infeasible means that no traceable set is accepted. -/
  infeasible : r.status = .provenInfeasible → ∀ cut, p.Accepts cut → ¬ p.Traceable cut
  /-- The limited answers are given past the budget only. -/
  limited : r.status = .limitReachedNoSolution ∨ r.status = .feasibleNotProvenOptimal →
    r.counters.explored_nodes > budget.max_explored_nodes
  /-- A certificate comes with the infeasible answer. -/
  witness : r.has_infeasibility_witness = true →
    r.status = .provenInfeasible ∧ WitnessOk p r.infeasibility_path

/-- On a well-formed problem the exact solver searches. -/
theorem solveExact_eq {p : ContainmentProblem} (hp : p.WellFormed) (budget : SolveBudget) :
    solveExact p budget = (finalState p budget).solution := by
  rw [solveExact, if_neg]
  · rfl
  · obtain ⟨s, hs⟩ := List.exists_mem_of_ne_nil _ hp.sources_ne_nil
    have hlt := hp.sources_lt s hs
    simp only [Bool.or_eq_true, beq_iff_eq, List.isEmpty_iff, not_or]
    exact ⟨⟨(Nat.zero_lt_of_lt hlt).ne', hp.sources_ne_nil⟩, hp.protected_ne_nil⟩

/-- The exact solver keeps its promises. -/
theorem solveExact_spec {p : ContainmentProblem} (hp : p.WellFormed) (budget : SolveBudget) :
    ExactSpec p budget (solveExact p budget) := by
  rw [solveExact_eq hp]
  have ho := outcome_finalState hp budget
  -- a search that was not cut short covers every cut
  have hcov := @finalState_covers p budget hp
  generalize finalState p budget = s at ho hcov ⊢
  have hexh := ho.found.exhausted
  have hexceed := ho.found.exceeded
  rw [solution]
  cases hb : s.best with
  | some b =>
    obtain ⟨members, objective⟩ := b
    obtain ⟨hacc, hobj, htr⟩ := ho.found.best members objective hb
    refine ⟨?_, fun _ => ⟨hacc, hobj, htr⟩, ?_, ?_, ?_, by simp⟩
    · simp only; split <;> simp
    · intro hst cut hcut hctr
      cases hex : s.counters.budget_exhausted with
      | true => simp [hex] at hst
      | false =>
        obtain ⟨b, hbest, hle⟩ := hcov (hexh ▸ hex) hcut hctr
        rw [hb, Option.some.injEq] at hbest
        subst hbest
        -- a cut with the same key has the same signature, so the same nodes
        rcases hle.lt_or_eq with hlt | heq
        · exact Or.inr (objectiveLess_iff.mpr hlt)
        · rw [hobj] at heq
          exact Or.inl (perm_of_objectiveKey_eq hacc.lt hcut.lt heq).symm
    · simp only; split <;> simp
    · cases hex : s.counters.budget_exhausted with
      | true => exact fun _ => hexceed (hexh ▸ hex)
      | false => simp
  | none =>
    cases hex : s.counters.budget_exhausted with
    | true => exact ⟨by simp, by simp, by simp, by simp, fun _ => hexceed (hexh ▸ hex), by simp⟩
    | false =>
      refine ⟨by simp, by simp, by simp, fun _ cut hcut hctr => ?_, by simp, fun hw => ?_⟩
      · obtain ⟨b, hbest, -⟩ := hcov (hexh ▸ hex) hcut hctr
        rw [hb] at hbest
        exact absurd hbest (by simp)
      · simp only [Bool.false_eq_true, if_false] at hw ⊢
        obtain ⟨path, hpath⟩ := Option.isSome_iff_exists.mp hw
        exact ⟨trivial, ho.found.witness _ (by rw [hpath, Option.getD_some])⟩

/-- A search that does not give up decides the problem. -/
theorem solveExact_decides {p : ContainmentProblem} (hp : p.WellFormed) {budget : SolveBudget}
    (h : (finalState p budget).aborted = false) :
    (solveExact p budget).status = .provenOptimal ∨
      (solveExact p budget).status = .provenInfeasible := by
  have hexh := (outcome_finalState hp budget).found.exhausted
  rw [h] at hexh
  rw [solveExact_eq hp, solution]
  cases (finalState p budget).best with
  | some b => exact Or.inl (by simp [hexh])
  | none => exact Or.inr (by simp [hexh])

/-! ## Built problems -/

/-- A chain of three nodes of weight 3: the source `s`, the relay `a` and the obligation `p`. -/
def chainSpec : TopologySpec where
  generation := 1
  nodes := [⟨bytesOf "s", true, 3, false, .complete⟩, ⟨bytesOf "a", true, 3, false, .complete⟩,
    ⟨bytesOf "p", false, 3, true, .complete⟩]
  edges := [⟨bytesOf "s", bytesOf "a", .proven, 1⟩, ⟨bytesOf "a", bytesOf "p", .unknown, 1⟩]

/-- The topology of the chain. -/
def chain : Topology := value (Topology.build chainSpec) (by decide +kernel)

/-- The instance over the chain with a bound on the weight; sources need not be contained. -/
def chainInstance (allow_protected_inclusion : Bool) (max_total_weight : UInt64) :
    ContainmentInstanceSpec where
  failure_sources := [bytesOf "s"]
  protected_obligations := [bytesOf "p"]
  require_source_inclusion := false
  allow_protected_inclusion := allow_protected_inclusion
  max_total_weight := max_total_weight
  max_members := 10

/-- The problem of the chain with room for three members. -/
def chainProblem : ContainmentProblem :=
  value (ContainmentProblem.build (.build chain) (chainInstance false 9)) (by decide +kernel)

/-- On a problem whose sources are no obligations, the exact solver reports accepted sets, and a set
it calls optimal is the only least one among all accepted sets. -/
theorem solveExact_optimal {graph : PropagationGraph} {spec : ContainmentInstanceSpec}
    {p : ContainmentProblem} (hbuild : ContainmentProblem.build graph spec = .ok p)
    (hdisjoint : ∀ s ∈ p.sources, s ∉ p.protected_nodes) (budget : SolveBudget) :
    ((solveExact p budget).status = .provenOptimal ∨
        (solveExact p budget).status = .feasibleNotProvenOptimal →
      verifyCut p (solveExact p budget).members = .ok (solveExact p budget).objective) ∧
    ((solveExact p budget).status = .provenOptimal →
      ∀ cut objective, verifyCut p cut = .ok objective →
        cut.Perm (solveExact p budget).members ∨
          objectiveLess (solveExact p budget).objective objective
            p.minimize_protected_inclusions = true) := by
  have hp := build_wellFormed hbuild
  have hspec := solveExact_spec hp budget
  refine ⟨fun h => ?_, fun h cut objective hcut => ?_⟩
  · obtain ⟨hacc, hobj, -⟩ := hspec.found h
    exact (verifyCut_eq_ok_iff hp).mpr ⟨hacc, hobj⟩
  · obtain ⟨hacc, rfl⟩ := (verifyCut_eq_ok_iff hp).mp hcut
    exact hspec.optimal h cut hacc (hacc.traceable hp hdisjoint)

/-- On the chain the relay is the optimal set, with the source next. -/
theorem solveExact_optimal_chain :
    (solveExact chainProblem ⟨1000, 1000⟩).status = .provenOptimal ∧
      ∀ cut objective, verifyCut chainProblem cut = .ok objective →
        cut.Perm (solveExact chainProblem ⟨1000, 1000⟩).members ∨
          objectiveLess (solveExact chainProblem ⟨1000, 1000⟩).objective objective
            chainProblem.minimize_protected_inclusions = true :=
  have h : (solveExact chainProblem ⟨1000, 1000⟩).status = .provenOptimal := by decide +kernel
  ⟨h, (solveExact_optimal (eq_ok_value _) (by decide +kernel) ⟨1000, 1000⟩).2 h⟩

/-- On a problem whose sources are no obligations, the exact solver calls a problem infeasible only
when no set is accepted, gives a limited answer only past its budget, and decides the problem on a
budget of `searchSize` or on the largest one. -/
theorem solveExact_complete {graph : PropagationGraph} {spec : ContainmentInstanceSpec}
    {p : ContainmentProblem} (hbuild : ContainmentProblem.build graph spec = .ok p)
    (hdisjoint : ∀ s ∈ p.sources, s ∉ p.protected_nodes) (budget : SolveBudget) :
    ((solveExact p budget).status = .provenInfeasible →
      ∀ cut objective, verifyCut p cut ≠ .ok objective) ∧
    ((solveExact p budget).status = .limitReachedNoSolution ∨
        (solveExact p budget).status = .feasibleNotProvenOptimal →
      (solveExact p budget).counters.explored_nodes > budget.max_explored_nodes) ∧
    (searchSize p (p.nodeCount + 1) ≤ budget.max_explored_nodes.toNat ∨
        budget.max_explored_nodes.toNat = kMaxUInt64 →
      ((∃ cut objective, verifyCut p cut = .ok objective) →
        (solveExact p budget).status = .provenOptimal) ∧
      ((¬ ∃ cut objective, verifyCut p cut = .ok objective) →
        (solveExact p budget).status = .provenInfeasible)) := by
  have hp := build_wellFormed hbuild
  have hspec := solveExact_spec hp budget
  have hnone : (solveExact p budget).status = .provenInfeasible →
      ∀ cut objective, verifyCut p cut ≠ .ok objective := by
    intro h cut objective hcut
    obtain ⟨hacc, -⟩ := (verifyCut_eq_ok_iff hp).mp hcut
    exact hspec.infeasible h cut hacc (hacc.traceable hp hdisjoint)
  refine ⟨hnone, hspec.limited, fun hb => ?_⟩
  rcases solveExact_decides hp (not_aborted hp hb) with h | h
  · have hacc := (hspec.found (Or.inl h)).1
    exact ⟨fun _ => h, fun hno => absurd ⟨_, _, (verifyCut_eq_ok_iff hp).mpr ⟨hacc, rfl⟩⟩ hno⟩
  · exact ⟨fun ⟨cut, objective, hcut⟩ => absurd hcut (hnone h cut objective), fun _ => h⟩

/-- On the chain the exact search decides on a budget that bounds its size. -/
theorem solveExact_complete_chain :
    searchSize chainProblem (chainProblem.nodeCount + 1) ≤ 40 ∧
      (solveExact chainProblem ⟨40, 1000⟩).status = .provenOptimal :=
  have hsize : searchSize chainProblem (chainProblem.nodeCount + 1) ≤ 40 := by decide +kernel
  ⟨hsize, ((solveExact_complete (eq_ok_value _) (by decide +kernel) ⟨40, 1000⟩).2.2
    (Or.inl hsize)).1 ⟨[0], value (verifyCut chainProblem [0]) (by decide +kernel), eq_ok_value _⟩⟩

end Fcfn
