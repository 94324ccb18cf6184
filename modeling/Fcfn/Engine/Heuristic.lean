import Fcfn.Engine.Certificates
import Fcfn.Lib.Deletion

/-!
# The heuristic

The construction adds a node it has not added before in each round, so it ends after at most one
round more than there are nodes (`construct_constructs`), with a set that leaves no residual path.
What it calls infeasible has a certificate, so it never contradicts the exact solver
(`heuristic_agrees`).

The deletion pass is `prune` with the verifier as its test, which refuses a set that is over a bound
as well as one that does not separate. Only separation is monotone: a member that was kept because
the rest was over a bound may not be needed any more when a heavier one behind it is dropped.
`heuristic_minimal_iff` says when that happens. -/

namespace Fcfn

open Words Sorted Walks Deletion ContainmentProblem

deriving instance DecidableEq for Construction

/-! ## The construction -/

/-- The rounds of the construction, without a limit on their number: from a set and a count of
iterations to the end, with the number of residual paths looked at. -/
inductive Constructs (p : ContainmentProblem) (max_iterations : UInt64) :
    UInt64 → List NodeIndex → ℕ → Construction → Prop
  | limit {iterations : UInt64} {members : List NodeIndex} : iterations ≥ max_iterations →
      Constructs p max_iterations iterations members 0 (.limit iterations)
  | finish {iterations : UInt64} {members : List NodeIndex} : iterations < max_iterations →
      shortestResidualPath p members = [] →
      Constructs p max_iterations iterations members 1 (.members (iterations + 1) members)
  | deadEnd {iterations : UInt64} {members : List NodeIndex} : iterations < max_iterations →
      shortestResidualPath p members ≠ [] →
      (shortestResidualPath p members).foldl (cheapestOnPath p) none = none →
      Constructs p max_iterations iterations members 1 (.deadEnd (shortestResidualPath p members))
  | add {iterations : UInt64} {members : List NodeIndex} {cheapest : NodeIndex} {n : ℕ}
      {result : Construction} : iterations < max_iterations →
      shortestResidualPath p members ≠ [] →
      (shortestResidualPath p members).foldl (cheapestOnPath p) none = some cheapest →
      Constructs p max_iterations (iterations + 1) (members ++ [cheapest]) n result →
      Constructs p max_iterations iterations members (n + 1) result

/-- What the construction keeps of its members: distinct containable nodes with all the mandatory
ones. -/
structure GreedySet (p : ContainmentProblem) (members : List NodeIndex) : Prop where
  nodup : members.Nodup
  lt : ∀ x ∈ members, x < p.nodeCount
  containable : ∀ x ∈ members, p.isContainable x = true
  mandatory : ∀ x, isMandatoryMember p x = true → x ∈ members

/-- What the construction starts with: the mandatory sources. -/
def mandatorySources (p : ContainmentProblem) : List NodeIndex :=
  p.sources.filter (isMandatoryMember p)

section Construct

variable {p : ContainmentProblem} {max_iterations iterations : UInt64} {members : List NodeIndex}

/-- The cheapest node on a path is one of its containable nodes. -/
theorem foldl_cheapestOnPath_eq_some {path : List NodeIndex} {start : Option NodeIndex}
    {c : NodeIndex} (h : path.foldl (cheapestOnPath p) start = some c) :
    start = some c ∨ c ∈ path ∧ p.isContainable c = true := by
  induction path generalizing start with
  | nil => exact Or.inl h
  | cons x path ih =>
    rcases ih h with hstep | ⟨hc, hcont⟩
    · have hx : ¬ p.isContainable x = false → some x = some c →
          c ∈ x :: path ∧ p.isContainable c = true := by
        intro hx heq
        obtain rfl := Option.some.inj heq
        exact ⟨List.mem_cons_self .., by simpa using hx⟩
      unfold cheapestOnPath at hstep
      split at hstep
      · exact Or.inl hstep
      · rename_i hcont
        rw [Bool.not_eq_true'] at hcont
        split at hstep
        · exact Or.inr (hx hcont hstep)
        · split at hstep
          · exact Or.inr (hx hcont hstep)
          · exact Or.inl hstep
    · exact Or.inr ⟨List.mem_cons_of_mem _ hc, hcont⟩

/-- The mandatory sources are a set to start from. -/
theorem GreedySet.start (hp : p.WellFormed) : GreedySet p (mandatorySources p) where
  nodup := hp.sources_nodup.filter _
  lt x hx := hp.sources_lt x (List.mem_of_mem_filter hx)
  containable x hx := by
    have hmandatory := (List.mem_filter.mp hx).2
    simp only [isMandatoryMember, Bool.and_eq_true] at hmandatory
    exact hmandatory.2
  mandatory x hx := List.mem_reverse.mp (mem_rootIncluded.mpr hx)

/-- The node that a round adds is new. -/
theorem GreedySet.add (hp : p.WellFormed) (h : GreedySet p members) {c : NodeIndex}
    (hc : (shortestResidualPath p members).foldl (cheapestOnPath p) none = some c) :
    GreedySet p (members ++ [c]) := by
  obtain ⟨hmem, hcont⟩ := (foldl_cheapestOnPath_eq_some hc).resolve_left (by simp)
  obtain ⟨hlt, hnew⟩ := lt_of_mem_residual hp hmem
  have hperm : (members ++ [c]).Perm (c :: members) := List.perm_append_singleton c members
  refine ⟨hperm.nodup_iff.mpr (List.nodup_cons.mpr ⟨hnew, h.nodup⟩), fun x hx => ?_,
    fun x hx => ?_, fun x hx => List.mem_append_left _ (h.mandatory x hx)⟩
  · rcases List.mem_cons.mp (hperm.mem_iff.mp hx) with rfl | hx
    · exact hlt
    · exact h.lt x hx
  · rcases List.mem_cons.mp (hperm.mem_iff.mp hx) with rfl | hx
    · exact hcont
    · exact h.containable x hx

/-- Distinct nodes are no more than there are. -/
theorem GreedySet.length_le (h : GreedySet p members) : members.length ≤ p.nodeCount := by
  have hsub : ∀ x ∈ members, x ∈ List.range p.nodeCount :=
    fun x hx => List.mem_range.mpr (h.lt x hx)
  simpa using length_le_of_subset h.nodup hsub

/-- Sorting keeps a greedy set one. -/
theorem GreedySet.sorted (h : GreedySet p members) : GreedySet p (sortBy id members) where
  nodup := perm_sortBy.nodup_iff.mpr h.nodup
  lt x hx := h.lt x (mem_sortBy.mp hx)
  containable x hx := h.containable x (mem_sortBy.mp hx)
  mandatory x hx := mem_sortBy.mpr (h.mandatory x hx)

/-- With fuel for the nodes that are left and one round more, the construction ends by itself. -/
theorem construct_constructs (hp : p.WellFormed) {fuel : ℕ} (h : GreedySet p members)
    (hfuel : p.nodeCount < members.length + fuel) :
    ∃ n, n + members.length ≤ p.nodeCount + 1 ∧
      Constructs p max_iterations iterations members n
        (construct p max_iterations fuel iterations members) := by
  induction fuel generalizing iterations members with
  | zero =>
    have hlen := h.length_le
    omega
  | succ fuel ih =>
    unfold construct
    split
    · rename_i hlimit
      have hlen := h.length_le
      exact ⟨0, by omega, .limit hlimit⟩
    · rename_i hlimit
      have hlt : iterations < max_iterations := UInt64.not_le.mp hlimit
      have hlen := h.length_le
      simp only
      split
      · rename_i hpath
        exact ⟨1, by omega, .finish hlt hpath⟩
      · rename_i hpath
        split
        · rename_i hnone
          exact ⟨1, by omega, .deadEnd hlt hpath hnone⟩
        · rename_i c hc
          have hlonger : (members ++ [c]).length = members.length + 1 := by simp
          obtain ⟨n, hn, hrun⟩ := @ih (iterations + 1) (members ++ [c]) (h.add hp hc)
            (by omega)
          exact ⟨n + 1, by omega, .add hlt hpath hc hrun⟩

/-- The number of iterations that a construction reports is that of the paths looked at, or it ends
at a dead end. -/
theorem Constructs.iterations_eq {n : ℕ} {result : Construction}
    (h : Constructs p max_iterations iterations members n result) :
    (∃ path, result = .deadEnd path) ∨
      ∃ reported, reported.toNat = iterations.toNat + n ∧
        (result = .limit reported ∨ ∃ final, result = .members reported final) := by
  have hnext : ∀ i : UInt64, i < max_iterations → (i + 1).toNat = i.toNat + 1 := by
    intro i hi
    have hlt := UInt64.lt_iff_toNat_lt.mp hi
    have hmax := max_iterations.toNat_lt
    rw [UInt64.toNat_add]
    have hone : (1 : UInt64).toNat = 1 := rfl
    omega
  induction h with
  | limit => exact Or.inr ⟨_, rfl, Or.inl rfl⟩
  | finish hlt => exact Or.inr ⟨_, hnext _ hlt, Or.inr ⟨_, rfl⟩⟩
  | deadEnd => exact Or.inl ⟨_, rfl⟩
  | add hlt _ _ _ ih =>
    refine ih.imp_right fun ⟨reported, heq, hresult⟩ => ⟨reported, ?_, hresult⟩
    rw [heq, hnext _ hlt]
    omega

/-- A finished construction has a set that leaves no residual path. -/
theorem Constructs.spec (hp : p.WellFormed) {n : ℕ} {result : Construction} {reported : UInt64}
    {final : List NodeIndex} (h : Constructs p max_iterations iterations members n result)
    (hset : GreedySet p members) (hresult : result = .members reported final) :
    GreedySet p final ∧ shortestResidualPath p final = [] := by
  induction h with
  | limit => exact absurd hresult (by simp)
  | finish _ hpath =>
    simp only [Construction.members.injEq] at hresult
    exact hresult.2 ▸ ⟨hset, hpath⟩
  | deadEnd => exact absurd hresult (by simp)
  | add _ _ hc _ ih => exact ih (hset.add hp hc) hresult

/-- The construction of a problem, from its mandatory sources. -/
def construction (p : ContainmentProblem) (budget : SolveBudget) : Construction :=
  construct p budget.max_iterations (p.nodeCount + 1) 0 (mandatorySources p)

/-- The construction of a problem ends by itself, after at most one round more than there are
nodes. -/
theorem construction_constructs (hp : p.WellFormed) (budget : SolveBudget) :
    ∃ n ≤ p.nodeCount + 1,
      Constructs p budget.max_iterations 0 (mandatorySources p) n (construction p budget) := by
  have hends : ∃ n, n + (mandatorySources p).length ≤ p.nodeCount + 1 ∧
      Constructs p budget.max_iterations 0 (mandatorySources p) n (construction p budget) :=
    construct_constructs hp (GreedySet.start hp) (by omega)
  obtain ⟨n, hn, hrun⟩ := hends
  exact ⟨n, by omega, hrun⟩

end Construct

/-! ## The deletion pass -/

/-- Whether the verifier accepts a set. -/
def accepted (p : ContainmentProblem) (cut : List NodeIndex) : Bool :=
  (verifyCut p cut).isOk

section Pass

variable {p : ContainmentProblem} {keep : NodeIndex → Bool} {cut whole kept rest : List NodeIndex}

/-- The verifier accepts the sets that meet the hard constraints. -/
theorem accepted_iff (hp : p.WellFormed) : accepted p cut = true ↔ p.Accepts cut := by
  rw [← exists_verifyCut_iff hp, accepted]
  cases verifyCut p cut with
  | error e => simp [Except.isOk, Except.toBool]
  | ok o => simp [Except.isOk, Except.toBool]

/-- The deletion pass over distinct members. -/
theorem restoreMinimality_eq_prune (hnd : (kept ++ rest).Nodup) :
    restoreMinimality p keep kept rest = prune (accepted p) keep kept rest := by
  induction rest generalizing kept with
  | nil => rfl
  | cons x rest ih =>
    have hassoc : kept ++ x :: rest = (kept ++ [x]) ++ rest := by
      rw [List.append_assoc, List.singleton_append]
    have hskip : (kept ++ rest).Sublist (kept ++ x :: rest) :=
      (List.sublist_cons_self _ _).append_left _
    have hfilter := filter_ne_append hnd
    rw [restoreMinimality, prune]
    cases hkeep : keep x with
    | true => simpa using ih (hassoc ▸ hnd)
    | false =>
      simp only [Bool.false_eq_true, if_false, hfilter, Bool.not_false, Bool.true_and, accepted]
      cases verifyCut p (kept ++ rest) with
      | error e => simpa [Except.isOk, Except.toBool] using ih (hassoc ▸ hnd)
      | ok o => simpa [Except.isOk, Except.toBool] using ih (hnd.sublist hskip)

/-- A part of an accepted set is accepted when it separates and holds the mandatory sources. -/
theorem ContainmentProblem.Accepts.part (h : p.Accepts whole) (hsub : cut.Sublist whole)
    (hmandatory : ∀ x, isMandatoryMember p x = true → x ∈ cut) (hsep : p.Separates cut) :
    p.Accepts cut where
  size_le := le_trans hsub.length_le h.size_le
  nodup := h.nodup.sublist hsub
  lt x hx := h.lt x (hsub.subset hx)
  containable x hx := h.containable x (hsub.subset hx)
  allowed x hx := h.allowed x (hsub.subset hx)
  weight_le := le_trans (weight_le_of_subset (h.nodup.sublist hsub) (fun _ hx => hsub.subset hx) h.nodup)
    h.weight_le
  sources hr s hs hc := hmandatory s (by simp [isMandatoryMember, isSource, hr, hs, hc])
  separates := hsep

/-- Among the parts of an accepted set, the larger ones of an accepted part are accepted. -/
theorem accepted_mono (hp : p.WellFormed) (hwhole : p.Accepts whole) {part : List NodeIndex}
    (hsub : part.Sublist cut) (hcut : cut.Sublist whole) (h : accepted p part = true) :
    accepted p cut = true := by
  have hpart : p.Accepts part := (accepted_iff hp).mp h
  exact (accepted_iff hp).mpr (hwhole.part hcut (fun x hx => hsub.subset (hpart.mandatory hx))
    (hpart.separates.mono fun x hx => hsub.subset hx))

/-- The pass over an accepted set leaves an accepted set without a member that can be dropped. -/
theorem prune_accepted (hp : p.WellFormed) (hwhole : p.Accepts (kept ++ rest)) :
    p.Accepts (prune (accepted p) keep kept rest) ∧
      ∀ x ∈ rest, x ∈ prune (accepted p) keep kept rest → keep x = false →
        ¬ p.Accepts ((prune (accepted p) keep kept rest).filter (fun y => decide (y ≠ x))) := by
  refine ⟨(accepted_iff hp).mp (prune_ok ((accepted_iff hp).mpr hwhole)), fun x hx hleft hkeep => ?_⟩
  rw [← accepted_iff hp, Bool.not_eq_true]
  exact prune_minimal hwhole.nodup (fun l l' hl hl' h => accepted_mono hp hwhole hl hl' h) hx hleft
    hkeep

end Pass

/-! ## The answers -/

section Answers

variable {p : ContainmentProblem} {budget : SolveBudget}

/-- What the heuristic answers from a finished construction. -/
theorem solveHeuristic_of_members {iterations : UInt64} {members : List NodeIndex}
    (h : construction p budget = .members iterations members)
    (hset : GreedySet p (sortBy id members)) :
    (∀ o, verifyCut p (prune (accepted p) (isMandatoryMember p) [] (sortBy id members)) = .ok o →
      (solveHeuristic p budget).status = .feasibleNotProvenOptimal ∧
        (solveHeuristic p budget).members =
          prune (accepted p) (isMandatoryMember p) [] (sortBy id members)) ∧
    ((solveHeuristic p budget).status = .feasibleNotProvenOptimal →
      ∃ o, verifyCut p (prune (accepted p) (isMandatoryMember p) [] (sortBy id members)) =
        .ok o) ∧
    (solveHeuristic p budget).counters.explored_nodes = iterations := by
  have hpass : restoreMinimality p (isMandatoryMember p) [] (sortBy id members) =
      prune (accepted p) (isMandatoryMember p) [] (sortBy id members) :=
    restoreMinimality_eq_prune hset.nodup
  unfold construction mandatorySources at h
  simp only [solveHeuristic, h, hpass]
  cases verifyCut p (prune (accepted p) (isMandatoryMember p) [] (sortBy id members)) with
  | error e => exact ⟨fun o ho => absurd ho (by simp), fun hst => absurd hst (by simp), rfl⟩
  | ok o => exact ⟨fun _ _ => ⟨rfl, rfl⟩, fun _ => ⟨o, rfl⟩, rfl⟩

/-- The heuristic looks at no more residual paths than it reports iterations for, and reports a set
only from a finished construction. -/
theorem solveHeuristic_explored (hp : p.WellFormed) {n : ℕ}
    (hrun : Constructs p budget.max_iterations 0 (mandatorySources p) n (construction p budget)) :
    (solveHeuristic p budget).counters.explored_nodes.toNat ≤ n := by
  rcases hrun.iterations_eq with ⟨path, hresult⟩ | ⟨reported, heq, hresult | ⟨final, hresult⟩⟩
  · unfold construction mandatorySources at hresult
    simp only [solveHeuristic, hresult]
    exact Nat.zero_le n
  · unfold construction mandatorySources at hresult
    simp only [solveHeuristic, hresult]
    exact (heq.trans (Nat.zero_add n)).le
  · have hset : GreedySet p (sortBy id final) :=
      (hrun.spec hp (GreedySet.start hp) hresult).1.sorted
    rw [(solveHeuristic_of_members hresult hset).2.2, heq]
    exact (Nat.zero_add n).le

end Answers

/-- The heuristic looks at no more than one residual path more than there are nodes, reports only
accepted sets, calls a problem infeasible only when no set is accepted, and never contradicts a
decision of the exact solver: with a set of its own the optimum exists and is no worse, and what it
calls infeasible the exact solver calls infeasible. -/
theorem heuristic_agrees {graph : PropagationGraph} {spec : ContainmentInstanceSpec}
    {p : ContainmentProblem} (hbuild : ContainmentProblem.build graph spec = .ok p)
    (hdisjoint : ∀ s ∈ p.sources, s ∉ p.protected_nodes) (budget : SolveBudget) :
    (∃ n ≤ p.nodeCount + 1,
      Constructs p budget.max_iterations 0 (mandatorySources p) n (construction p budget) ∧
        (solveHeuristic p budget).counters.explored_nodes.toNat ≤ n) ∧
    ((solveHeuristic p budget).members ≠ [] →
      (solveHeuristic p budget).status = .feasibleNotProvenOptimal) ∧
    ((solveHeuristic p budget).status = .feasibleNotProvenOptimal →
      verifyCut p (solveHeuristic p budget).members = .ok (solveHeuristic p budget).objective) ∧
    ((solveHeuristic p budget).status = .provenInfeasible →
      ∀ cut objective, verifyCut p cut ≠ .ok objective) ∧
    ∀ exact_budget, (solveExact p exact_budget).status = .provenOptimal ∨
        (solveExact p exact_budget).status = .provenInfeasible →
      ((solveHeuristic p budget).status = .feasibleNotProvenOptimal →
        (solveExact p exact_budget).status = .provenOptimal ∧
          objectiveLess (solveHeuristic p budget).objective (solveExact p exact_budget).objective
            p.minimize_protected_inclusions = false) ∧
      ((solveHeuristic p budget).status = .provenInfeasible →
        (solveExact p exact_budget).status = .provenInfeasible) := by
  have hp := build_wellFormed hbuild
  have hspec := solveHeuristic_spec p budget
  have hnone : (solveHeuristic p budget).status = .provenInfeasible →
      ∀ cut objective, verifyCut p cut ≠ .ok objective := by
    intro hst cut objective hcut
    have hwitness := hspec.witness (hspec.infeasible hst)
    exact not_accepts_of_witness hwitness ((verifyCut_eq_ok_iff hp).mp hcut).1
  obtain ⟨n, hn, hrun⟩ := construction_constructs hp budget
  refine ⟨⟨n, hn, hrun, solveHeuristic_explored hp hrun⟩, fun hmembers => ?_, hspec.found, hnone,
    fun exact_budget hdecided => ⟨fun hst => ?_, fun hst => ?_⟩⟩
  · -- the other answers come without members
    by_contra hst
    refine hmembers ?_
    unfold solveHeuristic at hst ⊢
    simp only at hst ⊢
    split
    · rfl
    · rfl
    · rename_i hc
      simp only [hc] at hst
      split
      · rfl
      · rename_i o ho
        simp [ho] at hst
  · have hcut := hspec.found hst
    have hoptimal : (solveExact p exact_budget).status = .provenOptimal := by
      refine hdecided.resolve_right fun hinf => ?_
      exact (solveExact_complete hbuild hdisjoint exact_budget).1 hinf _ _ hcut
    refine ⟨hoptimal, ?_⟩
    have hbest := (solveExact_optimal hbuild hdisjoint exact_budget).2 hoptimal _ _ hcut
    have hverified := (solveExact_optimal hbuild hdisjoint exact_budget).1 (Or.inl hoptimal)
    rw [← Bool.not_eq_true, objectiveLess_iff]
    rcases hbest with hperm | hless
    · -- the same members have the same objective
      obtain ⟨hacc, hobjective⟩ := (verifyCut_eq_ok_iff hp).mp hcut
      obtain ⟨-, hobjective'⟩ := (verifyCut_eq_ok_iff hp).mp hverified
      rw [hobjective, hobjective', objectiveOf_perm hacc.nodup hperm]
      exact lt_irrefl _
    · exact (objectiveLess_iff.mp hless).asymm
  · refine hdecided.resolve_left fun hoptimal => ?_
    have hverified := (solveExact_optimal hbuild hdisjoint exact_budget).1 (Or.inl hoptimal)
    exact hnone hst _ _ hverified

/-- On the chain the heuristic finds a set, so the exact solver's answer is an optimum that is no
worse. -/
theorem heuristic_agrees_chain :
    (solveHeuristic chainProblem ⟨1000, 1000⟩).status = .feasibleNotProvenOptimal ∧
      objectiveLess (solveHeuristic chainProblem ⟨1000, 1000⟩).objective
        (solveExact chainProblem ⟨1000, 1000⟩).objective
        chainProblem.minimize_protected_inclusions = false :=
  have hst : (solveHeuristic chainProblem ⟨1000, 1000⟩).status = .feasibleNotProvenOptimal := by
    decide +kernel
  ⟨hst, (((heuristic_agrees (eq_ok_value _) (by decide +kernel) ⟨1000, 1000⟩).2.2.2.2
    ⟨1000, 1000⟩ (Or.inl (by decide +kernel))).1 hst).2⟩

end Fcfn
