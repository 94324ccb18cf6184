import Fcfn.Engine.World

/-!
# Infeasible plans

The exact search calls a problem infeasible when no accepted set is traceable. On a problem with a
source that is an obligation, which the residual paths never notice, that can be wrong: the source
has to be contained itself, and no path says so. `infeasible_true_iff` says exactly when a plan's
infeasibility is true for every search. -/

namespace Fcfn

open Words Sorted Walks ContainmentProblem

namespace ContainmentProblem

variable {p : ContainmentProblem} {cut included leaf : List NodeIndex}

/-- A trace keeps what it starts with. -/
theorem Traced.subset (h : Traced p cut included leaf) : ∀ x ∈ included, x ∈ leaf := by
  induction h with
  | done _ => exact fun x hx => hx
  | step _ _ _ _ ih => exact fun x hx => ih x (List.mem_cons_of_mem _ hx)

end ContainmentProblem

/-! ## The search's parameters -/

/-- The bounds a policy puts on the search. -/
structure SearchParameters where
  exact_search_budget : UInt64
  heuristic_budget : UInt64
  exact_instance_node_limit : UInt64

/-- The inputs with other bounds on the search. -/
def PlanInputs.withSearch (inputs : PlanInputs) (search : SearchParameters) : PlanInputs :=
  { inputs with
    policy := { inputs.policy with
      exact_search_budget := search.exact_search_budget
      heuristic_budget := search.heuristic_budget
      exact_instance_node_limit := search.exact_instance_node_limit } }

/-- The bounds within which the exact search never gives up, on any topology. -/
def unlimitedSearch : SearchParameters :=
  ⟨UInt64.ofNat kMaxUInt64, 1, UInt64.ofNat kMaxTopologyNodes⟩

/-- The candidates are nodes of the topology. -/
theorem candidates_length_le {p : ContainmentProblem} (hp : p.WellFormed) :
    p.candidates.length ≤ kMaxTopologyNodes := by
  rw [hp.candidates_eq, computeCandidates]
  have h := List.length_filter_le (fun node => (decide (node ∈ p.frontier) &&
    decide (node ∈ p.relevant)) || (p.require_source_inclusion && p.isSource node &&
      p.isContainable node)) (List.range p.nodeCount)
  rw [List.length_range] at h
  exact h.trans p.graph.topology.valid.nodes_le

/-- Without limits on the search, the solver is the exact search, and decides. -/
theorem solutionOf_unlimited {inputs : PlanInputs} {p : ContainmentProblem} (hp : p.WellFormed) :
    solutionOf (inputs.withSearch unlimitedSearch) p =
        solveExact p ⟨UInt64.ofNat kMaxUInt64, 1⟩ ∧
      ((solutionOf (inputs.withSearch unlimitedSearch) p).status = .provenOptimal ∨
        (solutionOf (inputs.withSearch unlimitedSearch) p).status = .provenInfeasible) := by
  have heq : solutionOf (inputs.withSearch unlimitedSearch) p =
      solveExact p ⟨UInt64.ofNat kMaxUInt64, 1⟩ := by
    have hlimit : (inputs.withSearch unlimitedSearch).policy.exact_instance_node_limit.toNat =
        kMaxTopologyNodes := show (UInt64.ofNat kMaxTopologyNodes).toNat = _ by decide
    rw [solutionOf, solve, hlimit, if_pos (candidates_length_le hp)]
    rfl
  rw [heq]
  exact ⟨rfl, solveExact_decides hp (ExactState.not_aborted hp (Or.inr (by decide)))⟩

/-! ## Infeasible plans -/

/-- An infeasible answer of either solver says that no traceable set is accepted. -/
theorem solve_infeasible {p : ContainmentProblem} (hp : p.WellFormed) {budget : SolveBudget}
    {limit : ℕ} (h : (solve p budget limit).status = .provenInfeasible) {cut : List NodeIndex}
    (hacc : p.Accepts cut) : ¬ p.Traceable cut := by
  rw [solve] at h
  split at h
  · exact (solveExact_spec hp budget).infeasible h cut hacc
  · have hspec := solveHeuristic_spec p budget
    exact absurd hacc (not_accepts_of_witness (hspec.witness (hspec.infeasible h)))

/-- A plan claims infeasibility exactly when it comes from an infeasible answer. -/
theorem claim_infeasible_iff {inputs : PlanInputs} {start plan : ContainmentPlan}
    {problem : Option ContainmentProblem} (h : Way inputs start plan problem) :
    plan.claim = .provenInfeasible ↔
      ∃ p, problem = some p ∧ (solutionOf inputs p).status = .provenInfeasible := by
  cases h with
  | noFailures _ _ hway => simp [(planNoFailures_spec hway).2.2.1]
  | noKnownSource _ _ hway => simp [(planNoKnownSource_spec hway).2.2]
  | noObligations _ _ hway =>
    obtain ⟨-, -, -, -, -, ⟨-, hc⟩ | ⟨-, hc⟩⟩ := planNoObligations_spec hway <;> simp [hc]
  | @solved p _ _ hbuild hway =>
    rcases planSolved_spec (build_wellFormed hbuild) hway with
      ⟨hst, hfound⟩ | ⟨hst, -, -, hc⟩ | ⟨hst, -, -, hc⟩
    · have hne := hfound.not_infeasible
      rcases hst with hst | hst <;> simp [hne, hst]
    · simp [hc, hst]
    · simp [hc, hst]

/-- The residual paths of the problem of the inputs lead to an accepted set when there is one. -/
def InfeasibilityDecided (inputs : PlanInputs) : Prop :=
  ∀ p, ContainmentProblem.build inputs.graph inputs.instanceSpec = .ok p →
    (∃ cut objective, verifyCut p cut = .ok objective) →
    ∃ cut objective, verifyCut p cut = .ok objective ∧ p.Traceable cut

/-- Whatever the search's parameters, a plan that claims infeasibility is right that no set is
accepted, exactly when the residual paths lead to an accepted set whenever there is one. -/
theorem infeasible_true_iff (inputs : PlanInputs) :
    (∀ (search : SearchParameters) (authority : AuthorityVector) (generation : PlanGeneration)
        (c : PlanComputation),
      computePlan (inputs.withSearch search) authority generation = .ok c →
      c.plan.claim = .provenInfeasible →
      ∃ p, c.problem = some p ∧ ∀ cut objective, verifyCut p cut ≠ .ok objective) ↔
    InfeasibilityDecided inputs := by
  constructor
  · intro hclaim p hbuild hsome
    have hp := build_wellFormed hbuild
    by_contra hnone
    -- Without limits the search ends in the infeasible answer, which becomes the plan's claim.
    have hst : (solutionOf (inputs.withSearch unlimitedSearch) p).status = .provenInfeasible := by
      obtain ⟨heq, hst | hst⟩ := @solutionOf_unlimited inputs p hp
      · rw [heq] at hst
        obtain ⟨hacc, -, htr⟩ := (solveExact_spec hp _).found (Or.inl hst)
        exact absurd ⟨_, _, (verifyCut_eq_ok_iff hp).mpr ⟨hacc, rfl⟩, htr⟩ hnone
      · exact hst
    have hplan := computePlan_of_build {} 1 (show ContainmentProblem.build
      (inputs.withSearch unlimitedSearch).graph (inputs.withSearch unlimitedSearch).instanceSpec =
        .ok p from hbuild) (planSolved_of_infeasible hst)
    obtain ⟨plan', hsealed, hway⟩ := computePlan_way hplan
    have hc : plan'.claim = .provenInfeasible := (claim_infeasible_iff hway).mpr ⟨p, rfl, hst⟩
    obtain ⟨p', hp', hreject⟩ := hclaim _ {} 1 _ hplan (by
      rw [hsealed, ContainmentPlan.sealed_claim, hc])
    obtain rfl := Option.some.inj hp'
    obtain ⟨cut, objective, hcut⟩ := hsome
    exact hreject cut objective hcut
  · intro hdecided search authority generation c hplan hclaim
    obtain ⟨plan, hsealed, hway⟩ := computePlan_way hplan
    rw [hsealed, ContainmentPlan.sealed_claim] at hclaim
    obtain ⟨p, hproblem, hst⟩ := (claim_infeasible_iff hway).mp hclaim
    refine ⟨p, hproblem, fun cut objective hcut => ?_⟩
    rw [hproblem] at hway
    cases hway with
    | solved _ _ hbuild _ =>
      have hp := build_wellFormed hbuild
      obtain ⟨cut', objective', hcut', htr⟩ := hdecided p hbuild ⟨cut, objective, hcut⟩
      exact solve_infeasible hp hst ((verifyCut_eq_ok_iff hp).mp hcut').1 htr

/-- A single obligation. -/
def lone : Topology :=
  value (Topology.build ⟨1, [⟨bytesOf "s", false, 1, true, .complete⟩], []⟩) (by decide +kernel)

/-- A policy that lets obligations be contained and does not ask for the sources. -/
def openPolicy : ContainmentPolicy :=
  { defaultPolicy with require_failure_source_inclusion := false, allow_protected_inclusion := true }

/-- The plan for a failed obligation under the open policy. -/
def lonePlan : PlanComputation :=
  value (computePlan (presentInputs lone openPolicy chainEvidence) {} 1) (by decide +kernel)

/-- The plan for a failed obligation claims infeasibility, although the verifier accepts the set
that contains it. -/
theorem infeasible_false :
    computePlan (presentInputs lone openPolicy chainEvidence) {} 1 = .ok lonePlan ∧
      validatePolicy openPolicy = .ok () ∧ lonePlan.plan.claim = .provenInfeasible ∧
      ∃ p, lonePlan.problem = some p ∧ ∃ objective, verifyCut p [0] = .ok objective := by
  refine ⟨eq_ok_value _, by decide, by decide +kernel, ?_⟩
  have h : lonePlan.problem.any (fun p => (verifyCut p [0]).isOk) = true := by decide +kernel
  obtain ⟨p, hp, hok⟩ := (Option.any_eq_true _ _).mp h
  exact ⟨p, hp, _, eq_ok_value hok⟩

end Fcfn
