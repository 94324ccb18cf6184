import Fcfn.Engine.Solver
import Fcfn.Model.Evidence
import Fcfn.Model.Plan
import Fcfn.Model.Policy

/-!
# The planner

`computePlan` turns a topology, the evidence, the policy and a view of the evidence's freshness
into a sealed plan. It has four ways through: no Present evidence, no Present resource in the
topology, no obligation, and a containment problem that is solved. The graph of the source's inputs
is the one built from the topology, and the source's pointers are never null. -/

namespace Fcfn

open Words Sorted

/-! ## Necessity analysis -/

/-- Which members are needed, by solving without each. -/
structure NecessityResult where
  proven_necessary : List NodeIndex := []
  indeterminate : List NodeIndex := []
  not_necessary : List NodeIndex := []
  counters : SolveCounters := {}

/-- The instance with one more node barred. -/
def specWithout (base : ContainmentProblem) (barred : NodeIndex) : ContainmentInstanceSpec where
  failure_sources := base.sources.map base.resourceId
  protected_obligations := base.protected_nodes.map base.resourceId
  forced_ineligible := base.barred_nodes.map base.resourceId ++ [base.resourceId barred]
  require_source_inclusion := base.require_source_inclusion
  allow_protected_inclusion := base.allow_protected_inclusion
  minimize_protected_inclusions := base.minimize_protected_inclusions
  max_total_weight := UInt64.ofNat base.max_total_weight
  max_members := UInt64.ofNat base.max_members

/-- Solve the instance with one node barred, adding to the counters. -/
def statusWithout (base : ContainmentProblem) (barred : NodeIndex) (budget : SolveBudget)
    (counters : SolveCounters) : SolveStatus × SolveCounters :=
  match ContainmentProblem.build base.graph (specWithout base barred) with
  | .error _ => (.invalidProblem, counters)
  | .ok rebuilt =>
    let solution := solveExact rebuilt budget
    (solution.status,
      { counters with
        explored_nodes := counters.explored_nodes + solution.counters.explored_nodes
        residual_paths_checked :=
          counters.residual_paths_checked + solution.counters.residual_paths_checked
        pruned_branches := counters.pruned_branches + solution.counters.pruned_branches
        budget_exhausted := counters.budget_exhausted || solution.counters.budget_exhausted })

/-- Test one node. -/
def analyzeNode (p : ContainmentProblem) (budget : SolveBudget) (result : NecessityResult)
    (node : NodeIndex) : NecessityResult :=
  if !p.isContainable node then { result with not_necessary := result.not_necessary ++ [node] }
  else if p.require_source_inclusion && p.isSource node then
    { result with proven_necessary := result.proven_necessary ++ [node] }
  else
    let (status, counters) := statusWithout p node budget result.counters
    let result := { result with counters := counters }
    match status with
    | .provenInfeasible =>
      { result with proven_necessary := result.proven_necessary ++ [node] }
    | .provenOptimal | .feasibleNotProvenOptimal =>
      { result with not_necessary := result.not_necessary ++ [node] }
    | .limitReachedNoSolution | .invalidProblem =>
      { result with indeterminate := result.indeterminate ++ [node] }

/-- Test each proposed member for necessity. -/
def analyzeNecessity (p : ContainmentProblem) (members : List NodeIndex) (budget : SolveBudget) :
    NecessityResult :=
  (sortBy id members).dedup.foldl (analyzeNode p budget) {}

/-! ## Inputs -/

/-- Evidence freshness facts owned by the runtime, not by the evidence vector. -/
structure FreshnessView where
  confirmations : Option (List (ResourceId × BootId))
  current_boot : BootIdentity
  require_current_boot_confirmation : Bool := true

/-- Whether a resource's evidence was confirmed in the current boot. -/
def confirmedInCurrentBoot (freshness : FreshnessView) (resource : ResourceId) : Bool :=
  match freshness.confirmations with
  | none => false
  | some confirmations =>
    match confirmations.find? (fun entry => entry.1 == resource) with
    | none => false
    | some entry => entry.2 == freshness.current_boot.id

/-- What a plan is computed from. -/
structure PlanInputs where
  topology : Topology
  evidence : EvidenceVector
  policy : ContainmentPolicy
  freshness : FreshnessView
  boundary_generation : BoundaryGeneration

namespace PlanInputs

/-- The graph of the topology. -/
def graph (inputs : PlanInputs) : PropagationGraph := .build inputs.topology

/-- The Present resources of the topology, in order. -/
def sources (inputs : PlanInputs) : List ResourceId :=
  sortBy id (inputs.evidence.presentResources.filter fun r => (inputs.topology.find r).isSome)

/-- The Present resources that are not in the topology, in order. -/
def missingSources (inputs : PlanInputs) : List ResourceId :=
  sortBy id (inputs.evidence.presentResources.filter fun r => (inputs.topology.find r).isNone)

/-- Whether some Present evidence has not been confirmed in the current boot, when it must be. -/
def notConfirmedSinceRestart (inputs : PlanInputs) : Bool :=
  inputs.evidence.presentResources.any fun r =>
    inputs.freshness.require_current_boot_confirmation &&
      !confirmedInCurrentBoot inputs.freshness r

/-- The protected obligations of the topology. -/
def obligations (inputs : PlanInputs) : List ResourceId :=
  (inputs.topology.nodes.filter NodeSpec.protected_obligation).map NodeSpec.id

/-- The currency of the evidence before the frontier is looked at. -/
def evidenceCurrency (inputs : PlanInputs) : EvidenceCurrency :=
  if inputs.missingSources != [] then .incompleteFrontier
  else if inputs.notConfirmedSinceRestart then .stale
  else .current

/-- The instance to be solved. -/
def instanceSpec (inputs : PlanInputs) : ContainmentInstanceSpec where
  failure_sources := inputs.sources
  protected_obligations := inputs.obligations
  require_source_inclusion := inputs.policy.require_failure_source_inclusion
  allow_protected_inclusion := inputs.policy.allow_protected_inclusion
  minimize_protected_inclusions := inputs.policy.minimize_protected_inclusions
  max_total_weight := inputs.policy.max_boundary_weight
  max_members := inputs.policy.max_boundary_members

/-- The solver's budget. -/
def budget (inputs : PlanInputs) : SolveBudget :=
  ⟨inputs.policy.exact_search_budget, inputs.policy.heuristic_budget⟩

/-- The plan before a way is taken. -/
def initialPlan (inputs : PlanInputs) (authority : AuthorityVector) (generation : PlanGeneration) :
    ContainmentPlan where
  generation := generation
  authority := authority
  topology_digest := inputs.topology.definitionDigest
  policy_digest := inputs.policy.digest
  evidence_digest := inputs.evidence.digest
  failure_sources := inputs.sources
  protected_obligations := inputs.obligations

end PlanInputs

/-! ## The four ways -/

/-- Add a reason to the plan's explanation. -/
def addReason (plan : ContainmentPlan) (code : ReasonCode) (text : String) : ContainmentPlan :=
  { plan with explanation := plan.explanation.add code text }

/-- Add a reason about each of the resources to the plan's explanation. -/
def addSubjects (plan : ContainmentPlan) (code : ReasonCode) (subjects : List ResourceId)
    (text : String) : ContainmentPlan :=
  { plan with
    explanation := subjects.foldl (fun x id => x.addResource code id text) plan.explanation }

/-- No active failures: the empty containment satisfies the policy. -/
def planNoFailures (inputs : PlanInputs) (plan : ContainmentPlan) : Result ContainmentPlan := do
  let boundary ← ContainmentBoundary.create inputs.boundary_generation []
  let plan := { plan with
    boundary := boundary
    claim := .provenContainment
    feasibility := .provenFeasible
    optimality := .provenOptimal
    currency := .current }
  let plan := addReason plan .noFailureSources "no authoritative failure evidence is current"
  let plan := addReason plan .feasibilityProven "empty containment satisfies the policy"
  let plan := addReason plan .optimalityProven "empty containment is minimal"
  return { plan with
    instance_digest :=
      digestOf (Write.digest inputs.topology.definitionDigest ++ Write.boolean true) }

/-- Every failure source is outside the topology: nothing can be proven. -/
def planNoKnownSource (inputs : PlanInputs) (plan : ContainmentPlan) : Result ContainmentPlan := do
  let boundary ← ContainmentBoundary.create inputs.boundary_generation []
  let plan := { plan with
    boundary := boundary
    claim := .indeterminate
    feasibility := .unknown
    optimality := .notAttempted
    currency := .incompleteFrontier }
  return addSubjects plan .failureSourceNotInTopology inputs.missingSources
    "failure source is absent from the known topology"

/-- Whether a resource of the topology is containable. -/
def sourceContainable (inputs : PlanInputs) (id : ResourceId) : Bool :=
  (inputs.topology.find id).any fun index => (inputs.topology.node index).containable

/-- The boundary member of a source when there are no obligations. -/
def sourceMember (inputs : PlanInputs) (id : ResourceId) : BoundaryMember where
  resource := id
  reason := .failureSource
  weight := ((inputs.topology.find id).map fun index => (inputs.topology.node index).weight).getD 0

/-- Nothing to protect: contain every eligible failure source. -/
def planNoObligations (inputs : PlanInputs) (plan : ContainmentPlan) : Result ContainmentPlan := do
  let members := (inputs.sources.filter (sourceContainable inputs)).map (sourceMember inputs)
  let uncontainable := inputs.sources.filter fun id => !sourceContainable inputs id
  let boundary ← ContainmentBoundary.create inputs.boundary_generation members
  let currency := inputs.evidenceCurrency
  let plan := { plan with
    uncontainable_sources := uncontainable
    boundary := boundary
    total_weight := boundary.totalWeight
    member_count := UInt64.ofNat boundary.members.length
    currency := currency }
  let plan := addReason plan .noProtectedObligations
    "no protected obligations are declared for this topology"
  let plan := addReason plan .optimalityProven "only mandatory failure sources are contained"
  let sources_ok := !inputs.policy.require_failure_source_inclusion || uncontainable.isEmpty
  if sources_ok && currency == .current then
    return { plan with
      claim := .provenContainment
      feasibility := .provenFeasible
      optimality := .provenOptimal }
  else
    let plan := { plan with
      claim := .indeterminate
      feasibility := if currency == .current then .provenFeasible else .unknown
      optimality := .provenOptimal }
    let plan := addSubjects plan .sourceNotContainable uncontainable
      "failure source is not eligible for containment"
    if currency != .current then
      return addReason plan .incompleteAdjacencyOnFrontier "evidence currency is not current"
    else return plan

/-! ## The solved problem -/

/-- A path from a source to an obligation around the excluded nodes, and whether one of its edges
is only an UNKNOWN one. -/
def findWitnessPath (p : ContainmentProblem) (excluded : List NodeIndex) :
    List NodeIndex × Bool :=
  let path := shortestResidualPath p excluded
  (path, (path.zip path.tail).any fun step =>
    !decide (step.2 ∈ p.graph.provenSuccessors step.1) && p.graph.hasUnknownEdge step.1 step.2)

/-- The boundary member of a node, with its witness: a path that survives removing every other
member. -/
def boundaryMember (p : ContainmentProblem) (members : List NodeIndex) (member : NodeIndex) :
    BoundaryMember :=
  let entry : BoundaryMember := {
    resource := p.resourceId member
    weight := UInt64.ofNat (p.weight member)
    protected_obligation := p.isProtected member
    reason := if p.isSource member then .failureSource else .cutVertexOnProvenPath }
  let (path, uses_unknown) := findWitnessPath p (members.filter (· ≠ member))
  if path != [] && decide (member ∈ path) then
    { entry with
      witness_path := path.map p.resourceId
      witness_uses_unknown := uses_unknown
      reason :=
        if p.isSource member then entry.reason
        else if uses_unknown then .cutVertexOnUnknownPath else .cutVertexOnProvenPath }
  else entry

/-- The number of frontier nodes whose adjacency is not complete. -/
def incompleteFrontier (p : ContainmentProblem) : ℕ :=
  p.frontier.countP fun node => (p.graph.topology.node node).completeness != .complete

/-- The number of frontier nodes that touch an UNKNOWN edge. -/
def unknownEdgesOnFrontier (p : ContainmentProblem) : ℕ :=
  p.frontier.countP p.graph.touchesUnknownEdge

/-- The currency once the frontier has been looked at. -/
def frontierCurrency (inputs : PlanInputs) (p : ContainmentProblem) : EvidenceCurrency :=
  if incompleteFrontier p > 0 && inputs.evidenceCurrency == .current then .incompleteFrontier
  else inputs.evidenceCurrency

/-- The plan of a built problem with the notes on its frontier. -/
def notedPlan (inputs : PlanInputs) (p : ContainmentProblem) (plan : ContainmentPlan) :
    ContainmentPlan :=
  let x := plan.explanation
  let x :=
    if incompleteFrontier p > 0 && inputs.evidenceCurrency == .current then
      x.addValue .incompleteAdjacencyOnFrontier (UInt64.ofNat (incompleteFrontier p))
        "adjacency information is incomplete on the propagation frontier"
    else x
  let x :=
    if unknownEdgesOnFrontier p > 0 then
      x.addValue .unknownEdgesPresent (UInt64.ofNat p.graph.unknownEdgeCount)
        "UNKNOWN edges are conservatively treated as present"
    else x
  { plan with
    instance_digest := p.instance_digest
    explanation := x
    currency := frontierCurrency inputs p }

/-- The plan with the counters of the search. -/
def countedPlan (p : ContainmentProblem) (solution : CutSolution) (plan : ContainmentPlan) :
    ContainmentPlan :=
  let c := solution.counters
  let plan := { plan with
    counters := ⟨c.candidate_nodes, c.explored_nodes, c.pruned_branches, c.residual_paths_checked,
      c.budget, c.budget_exhausted, c.heuristic_used⟩ }
  let plan :=
    if c.heuristic_used then
      addReason plan .heuristicConstructionUsed "instance exceeds the exact-search node limit"
    else plan
  let uncontainable := p.uncontainable_sources.map p.resourceId
  addSubjects { plan with uncontainable_sources := uncontainable } .sourceNotContainable
    uncontainable "failure source is not eligible for containment"

/-- The search proved that there is no containment set. -/
def planInfeasible (p : ContainmentProblem) (solution : CutSolution) (plan : ContainmentPlan) :
    ContainmentPlan :=
  let plan := { plan with
    feasibility := .provenInfeasible
    optimality := .notApplicable
    claim := .provenInfeasible
    infeasibility :=
      ⟨solution.has_infeasibility_witness, solution.infeasibility_path.map p.resourceId⟩ }
  if solution.has_infeasibility_witness then
    addReason plan .infeasibleCertificateIneligiblePath
      "a source-to-obligation path carries no eligible containment member"
  else
    addReason plan .infeasibleByExhaustiveSearch
      "exhaustive search found no feasible containment set"

/-- The search found no set and proved nothing. -/
def planLimitReached (plan : ContainmentPlan) : ContainmentPlan :=
  let plan := { plan with
    feasibility := .unknown
    optimality := .notAttempted
    claim := .indeterminate }
  let plan := addReason plan .searchLimitReached "search ended without a feasible containment set"
  addReason plan .noFeasibleSolutionFound
    "feasibility is unknown; this is not an infeasibility proof"

/-- The problem was found invalid. -/
def planInvalid (plan : ContainmentPlan) : ContainmentPlan :=
  addReason { plan with feasibility := .unknown, optimality := .notAttempted, claim := .invalid }
    .topologyEmpty "instance could not be built"

/-- The members of the boundary: those of a solution that are needed. -/
def planMembers (p : ContainmentProblem) (members : List NodeIndex) : List NodeIndex :=
  restoreMinimality p (fun node => p.isSource node && p.require_source_inclusion) []
    (sortBy id members)

/-- Whether the claim of a found set is downgraded, and to what. -/
def foundClaim (inputs : PlanInputs) (p : ContainmentProblem) (optimal : Bool)
    (plan : ContainmentPlan) : ContainmentPlan :=
  let currency := frontierCurrency inputs p
  if currency != .current then
    let plan := { plan with claim := .indeterminate }
    if currency == .stale then
      addReason plan .evidenceNotConfirmedSinceRestart
        "present evidence has not been confirmed in this boot"
    else
      addReason plan .incompleteAdjacencyOnFrontier
        "adjacency completeness prevents a containment claim"
  else if inputs.policy.require_failure_source_inclusion &&
      !plan.uncontainable_sources.isEmpty then
    addReason { plan with claim := .indeterminate } .sourceNotContainable
      "a required failure source cannot be contained"
  else if !optimal then { plan with claim := .provenFeasibleNotMinimal }
  else { plan with claim := .provenContainment }

/-- Above this candidate count the planner skips necessity analysis. -/
def kNecessityCandidateLimit : ℕ := 64

/-- The reasons of a found set. -/
def foundReasons (solution : CutSolution) (x : Explanation) : Explanation :=
  let x := x.add .feasibilityProven "an independent verifier accepted the containment set"
  let x :=
    if solution.status == .provenOptimal then
      x.add .optimalityProven "exhaustive search proved the objective is minimal"
    else
      (x.add .boundedSolutionNotMinimal "search budget ended before optimality was proven").add
        .searchLimitReached "optimality is not claimed for this plan"
  if !solution.counters.heuristic_used then
    x.add .localMinimalityRestored "each member is load-bearing"
  else x

/-- The plan with the results of the necessity analysis, when there are few enough candidates. -/
def addNecessity (inputs : PlanInputs) (p : ContainmentProblem) (members : List NodeIndex)
    (plan : ContainmentPlan) : ContainmentPlan :=
  if p.candidates.length ≤ kNecessityCandidateLimit then
    let necessity := analyzeNecessity p members inputs.budget
    { plan with
      proven_necessary_members := necessity.proven_necessary.map p.resourceId
      indeterminate_necessity := necessity.indeterminate.map p.resourceId }
  else plan

/-- The search found a set. -/
def planFound (inputs : PlanInputs) (p : ContainmentProblem) (solution : CutSolution)
    (plan : ContainmentPlan) : Result ContainmentPlan := do
  let members := planMembers p solution.members
  let boundary ← ContainmentBoundary.create inputs.boundary_generation
    (members.map (boundaryMember p members))
  let optimal := solution.status == .provenOptimal
  let plan := { plan with
    boundary := boundary
    total_weight := boundary.totalWeight
    member_count := UInt64.ofNat boundary.members.length
    feasibility := .provenFeasible
    optimality := if optimal then .provenOptimal else .boundedNotProven
    explanation := foundReasons solution plan.explanation }
  return addNecessity inputs p members (foundClaim inputs p optimal plan)

/-- The plan of a built problem. -/
def planSolved (inputs : PlanInputs) (p : ContainmentProblem) (plan : ContainmentPlan) :
    Result ContainmentPlan :=
  let solution := solve p inputs.budget inputs.policy.exact_instance_node_limit.toNat
  let plan := countedPlan p solution (notedPlan inputs p plan)
  match solution.status with
  | .provenInfeasible => .ok (planInfeasible p solution plan)
  | .limitReachedNoSolution => .ok (planLimitReached plan)
  | .invalidProblem => .ok (planInvalid plan)
  | .provenOptimal | .feasibleNotProvenOptimal => planFound inputs p solution plan

/-- A computed plan, with the problem that was built for it. -/
structure PlanComputation where
  plan : ContainmentPlan
  problem : Option ContainmentProblem

/-- Compute a containment plan. -/
def computePlan (inputs : PlanInputs) (authority : AuthorityVector) (generation : PlanGeneration) :
    Result PlanComputation := do
  let plan := inputs.initialPlan authority generation
  if inputs.sources.isEmpty && inputs.missingSources.isEmpty then
    let plan ← planNoFailures inputs plan
    return ⟨plan.sealed, none⟩
  else if inputs.sources.isEmpty then
    let plan ← planNoKnownSource inputs plan
    return ⟨plan.sealed, none⟩
  else if inputs.obligations.isEmpty then
    let plan ← planNoObligations inputs plan
    return ⟨plan.sealed, none⟩
  else
    let problem ← ContainmentProblem.build inputs.graph inputs.instanceSpec
    let plan ← planSolved inputs problem plan
    return ⟨plan.sealed, some problem⟩

end Fcfn
