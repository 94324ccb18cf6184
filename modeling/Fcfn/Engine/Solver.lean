import Fcfn.Engine.Cut

/-!
# The solvers

`solveExact` is a branch-and-bound search: on a shortest residual path, the branches include one
node each and exclude the ones before it. `solveHeuristic` adds the cheapest eligible node of a
residual path until there is none and then drops members that are not needed. `solve` picks one
by the number of candidates.

The search recurses on the path's nodes and, under each, on itself; the depth is a fuel argument,
for which one more than the number of nodes is enough, since every level includes a node that was
not included. Counters and budgets are 64-bit words, as in the source. -/

namespace Fcfn

open Words Sorted

/-- Explicit solve outcome. -/
inductive SolveStatus
  | provenOptimal | feasibleNotProvenOptimal | provenInfeasible | limitReachedNoSolution
  | invalidProblem
  deriving DecidableEq, Repr

/-- Bounded search accounting. -/
structure SolveCounters where
  candidate_nodes : UInt64 := 0
  explored_nodes : UInt64 := 0
  pruned_branches : UInt64 := 0
  residual_paths_checked : UInt64 := 0
  budget : UInt64 := 0
  budget_exhausted : Bool := false
  heuristic_used : Bool := false
  deriving DecidableEq, Repr

/-- Result of a solve attempt. -/
structure CutSolution where
  status : SolveStatus := .invalidProblem
  members : List NodeIndex := []
  objective : ObjectiveVector := ⟨0, 0, 0, []⟩
  counters : SolveCounters := {}
  has_infeasibility_witness : Bool := false
  infeasibility_path : List NodeIndex := []
  deriving DecidableEq, Repr

/-- Budget for one solve. -/
structure SolveBudget where
  max_explored_nodes : UInt64
  max_iterations : UInt64
  deriving DecidableEq, Repr

/-- Shortest path from a source to a protected obligation around the blocked nodes, empty when
there is none. Obligations are noticed when they are discovered, which a source never is. -/
def shortestResidualPath (p : ContainmentProblem) (blocked : List NodeIndex) : List NodeIndex :=
  Bfs.shortestPath p.graph.conservativeSuccessors blocked p.isProtected p.isSource p.nodeCount
    p.sources

/-- A node that policy requires inside every containment set. -/
def isMandatoryMember (p : ContainmentProblem) (node : NodeIndex) : Bool :=
  p.require_source_inclusion && p.isSource node && p.isContainable node

/-! ## The lower bound -/

/-- Compare one node with the cheapest so far. -/
def cheaper (p : ContainmentProblem) (excluded : List NodeIndex)
    (cheapest : Option NodeIndex × ℕ) (node : NodeIndex) : Option NodeIndex × ℕ :=
  if !p.isContainable node || decide (node ∈ excluded) then cheapest
  else if p.weight node < cheapest.2 ||
      (p.weight node == cheapest.2 && cheapest.1.any (fun c => node < c)) then
    (some node, p.weight node)
  else cheapest

/-- Disjoint-path lower bound with a number of rounds left: `none` when a residual path has no
eligible node, so that the branch cannot be completed. The number of residual paths looked at is
counted. The source also hands the path back; its caller drops it. -/
def disjointPathBound (p : ContainmentProblem) (excluded : List NodeIndex) :
    ℕ → List NodeIndex → ℕ → UInt64 → Option ℕ × UInt64
  | 0, _, bound, checked => (some bound, checked)
  | rounds + 1, blocked, bound, checked =>
    let checked := checked + 1
    let path := shortestResidualPath p blocked
    if path = [] then (some bound, checked)
    else
      let cheapest := path.foldl (cheaper p excluded) (none, kMaxUInt64)
      match cheapest.1 with
      | none => (none, checked)
      | some _ =>
        match checkedAdd bound cheapest.2 with
        | none => (some kMaxUInt64, checked)
        | some bound =>
          let eligible :=
            path.filter (fun node => p.isContainable node && !decide (node ∈ excluded))
          disjointPathBound p excluded rounds (eligible ++ blocked) bound checked

/-! ## The exact search -/

/-- The state of the exact search. The marks are the lists of the marked nodes. -/
structure ExactState where
  included : List NodeIndex := []
  excluded : List NodeIndex := []
  current : List NodeIndex := []
  current_weight : ℕ := 0
  current_protected : ℕ := 0
  best : Option (List NodeIndex × ObjectiveVector) := none
  aborted : Bool := false
  witness : Option (List NodeIndex) := none
  counters : SolveCounters

namespace ExactState

/-- Put a node into the containment set under construction. -/
def includeNode (p : ContainmentProblem) (s : ExactState) (node : NodeIndex) : ExactState :=
  { s with
    included := node :: s.included
    current := s.current ++ [node]
    current_weight := s.current_weight + p.weight node
    current_protected := s.current_protected + if p.isProtected node then 1 else 0 }

/-- Take a node out again: the last one when it is the node, else its first occurrence. -/
def unincludeNode (p : ContainmentProblem) (s : ExactState) (node : NodeIndex) : ExactState :=
  { s with
    included := s.included.filter (· ≠ node)
    current := if s.current.getLast? = some node then s.current.dropLast else s.current.erase node
    current_weight := s.current_weight - p.weight node
    current_protected := s.current_protected - if p.isProtected node then 1 else 0 }

/-- Mark a node as excluded. -/
def exclude (s : ExactState) (node : NodeIndex) : ExactState :=
  { s with excluded := node :: s.excluded }

/-- Clear the exclusion marks of a list of nodes. -/
def unexclude (s : ExactState) (nodes : List NodeIndex) : ExactState :=
  { s with excluded := s.excluded.filter (fun node => decide (node ∉ nodes)) }

/-- Count one explored node. -/
def explore (s : ExactState) : ExactState :=
  { s with counters := { s.counters with explored_nodes := s.counters.explored_nodes + 1 } }

/-- Give up because the budget is exhausted. -/
def abort (s : ExactState) : ExactState :=
  { s with aborted := true, counters := { s.counters with budget_exhausted := true } }

/-- Record a path as the infeasibility witness. -/
def recordWitness (s : ExactState) (path : List NodeIndex) : ExactState :=
  { s with witness := some path }

/-- Whether an objective beats the best set so far. -/
def beats (p : ContainmentProblem) (objective : ObjectiveVector) :
    Option (List NodeIndex × ObjectiveVector) → Bool
  | none => true
  | some (_, best) => objectiveLess objective best p.minimize_protected_inclusions

/-- Keep a completed set when the verifier accepts it and it beats the best one so far. -/
def recordLeaf (p : ContainmentProblem) (s : ExactState) : ExactState :=
  match verifyCut p s.current with
  | .error _ => s
  | .ok objective =>
    if beats p objective s.best then
      { s with best := some ((sortBy id s.current).dedup, objective) }
    else s

/-- The objective no completion of the set under construction is below, from a bound on the weight
it adds. -/
def lowerBound (s : ExactState) (weight_bound : ℕ) : ObjectiveVector :=
  ⟨s.current_protected, (checkedAdd s.current_weight weight_bound).getD kMaxUInt64,
    s.current.length, []⟩

end ExactState

/-- The number of disjoint paths the lower bound collects at most. -/
def kBoundIterations : ℕ := 32

/-- The bound step of a search node: the state with its counters, and whether to cut the node off.
There is nothing to compare with before a set has been found. -/
def boundStep (p : ContainmentProblem) (s : ExactState) : ExactState × Bool :=
  match s.best with
  | none => (s, false)
  | some (_, best) =>
    let r :=
      disjointPathBound p s.excluded kBoundIterations s.included 0 s.counters.residual_paths_checked
    let s := { s with counters := { s.counters with residual_paths_checked := r.2 } }
    match r.1 with
    | none => (s, true)
    | some weight_bound =>
      if objectiveLess best (s.lowerBound weight_bound) p.minimize_protected_inclusions then
        ({ s with
          counters := { s.counters with pruned_branches := s.counters.pruned_branches + 1 } }, true)
      else (s, false)

/-- The branches of a search node over the nodes of its path: search with the node included, then
go on with it excluded. Returns the nodes excluded here. -/
def branch (p : ContainmentProblem) (search : ExactState → ExactState) :
    List NodeIndex → List NodeIndex → ExactState → ExactState × List NodeIndex
  | [], excluded_here, s => (s, excluded_here)
  | node :: rest, excluded_here, s =>
    if decide (node ∈ s.excluded) || !p.isContainable node then branch p search rest excluded_here s
    else
      let s := (search (s.includeNode p node)).unincludeNode p node
      if s.aborted then (s, excluded_here)
      else if isMandatoryMember p node then (s, excluded_here)
      else branch p search rest (excluded_here ++ [node]) (s.exclude node)

/-- The step after the branches: the path becomes the witness when every node of it was excluded
at the root without a set being found. -/
def closeBranch (s : ExactState) (path excluded_here : List NodeIndex) : ExactState :=
  if !s.aborted && s.best.isNone && excluded_here.length == path.length &&
      s.current.isEmpty && s.witness.isNone then s.recordWitness path
  else s

/-- A search node: complete branching with a bound. -/
def search (p : ContainmentProblem) (max_explored_nodes : UInt64) : ℕ → ExactState → ExactState
  | 0, s => s
  | fuel + 1, s =>
    if s.aborted then s
    else
      let s := s.explore
      if s.counters.explored_nodes > max_explored_nodes then s.abort
      else if s.current.length > p.max_members || s.current_weight > p.max_total_weight then s
      else
        let path := shortestResidualPath p s.included
        if path = [] then s.recordLeaf p
        else if path.all (fun node => !p.isContainable node) then
          if s.witness.isNone && path.length ≤ kMaxCutCertificatePathNodes then s.recordWitness path
          else s
        else
          let (s, cut) := boundStep p s
          if cut then s
          else
            let (s, excluded_here) := branch p (search p max_explored_nodes fuel) path [] s
            closeBranch (s.unexclude excluded_here) path excluded_here

/-- The root state: every mandatory source is included. -/
def rootState (p : ContainmentProblem) (budget : SolveBudget) : ExactState :=
  (p.sources.filter (isMandatoryMember p)).foldl (ExactState.includeNode p)
    { counters := {
        candidate_nodes := UInt64.ofNat p.candidates.length
        budget := budget.max_explored_nodes } }

/-- What a finished search reports. -/
def ExactState.solution (s : ExactState) : CutSolution :=
  match s.best with
  | some (members, objective) =>
    { status := if s.counters.budget_exhausted then .feasibleNotProvenOptimal else .provenOptimal
      members := members
      objective := objective
      counters := s.counters }
  | none =>
    if s.counters.budget_exhausted then
      { status := .limitReachedNoSolution, counters := s.counters }
    else
      { status := .provenInfeasible
        counters := s.counters
        has_infeasibility_witness := s.witness.isSome
        infeasibility_path := s.witness.getD [] }

/-- Complete branch-and-bound solver. -/
def solveExact (p : ContainmentProblem) (budget : SolveBudget) : CutSolution :=
  if p.nodeCount == 0 || p.sources.isEmpty || p.protected_nodes.isEmpty then {}
  else (search p budget.max_explored_nodes (p.nodeCount + 1) (rootState p budget)).solution

/-! ## The heuristic -/

/-- The cheapest eligible node of a path, ties broken by identity. -/
def cheapestOnPath (p : ContainmentProblem) (cheapest : Option NodeIndex) (node : NodeIndex) :
    Option NodeIndex :=
  if !p.isContainable node then cheapest
  else
    match cheapest with
    | none => some node
    | some c =>
      if p.weight node < p.weight c ||
          (p.weight node == p.weight c && decide (p.resourceId node < p.resourceId c)) then some node
      else some c

/-- What the construction ends with: the members, a path without an eligible node, or the limit;
each with the number of iterations. -/
inductive Construction
  | members (iterations : UInt64) (members : List NodeIndex)
  | deadEnd (path : List NodeIndex)
  | limit (iterations : UInt64)

/-- Add the cheapest eligible node of a residual path until there is no path. A node is added in
each round, so the number of nodes bounds the rounds. -/
def construct (p : ContainmentProblem) (max_iterations : UInt64) :
    ℕ → UInt64 → List NodeIndex → Construction
  | 0, iterations, _ => .limit iterations
  | fuel + 1, iterations, members =>
    if iterations ≥ max_iterations then .limit iterations
    else
      let path := shortestResidualPath p members
      if path = [] then .members (iterations + 1) members
      else
        match path.foldl (cheapestOnPath p) none with
        | none => .deadEnd path
        | some cheapest => construct p max_iterations fuel (iterations + 1) (members ++ [cheapest])

/-- Drop members that the verifier does not need, in order; the members in `kept` have been looked
at and `keep` exempts a member. The members are distinct, so dropping one drops nothing else. -/
def restoreMinimality (p : ContainmentProblem) (keep : NodeIndex → Bool) :
    List NodeIndex → List NodeIndex → List NodeIndex
  | kept, [] => kept
  | kept, candidate :: rest =>
    if keep candidate then restoreMinimality p keep (kept ++ [candidate]) rest
    else
      let trial := (kept ++ candidate :: rest).filter (· ≠ candidate)
      match verifyCut p trial with
      | .ok _ => restoreMinimality p keep kept rest
      | .error _ => restoreMinimality p keep (kept ++ [candidate]) rest

/-- Scalable deterministic greedy solver with minimality restoration. -/
def solveHeuristic (p : ContainmentProblem) (budget : SolveBudget) : CutSolution :=
  let counters : SolveCounters := {
    candidate_nodes := UInt64.ofNat p.candidates.length
    budget := budget.max_iterations
    heuristic_used := true }
  match construct p budget.max_iterations (p.nodeCount + 1) 0
      (p.sources.filter (isMandatoryMember p)) with
  | .deadEnd path =>
    { status := .provenInfeasible
      counters := counters
      has_infeasibility_witness := true
      infeasibility_path := path }
  | .limit iterations =>
    { status := .limitReachedNoSolution
      counters := { counters with explored_nodes := iterations, budget_exhausted := true } }
  | .members iterations members =>
    let members := restoreMinimality p (isMandatoryMember p) [] (sortBy id members)
    match verifyCut p members with
    | .error _ =>
      { status := .limitReachedNoSolution
        counters := { counters with explored_nodes := iterations } }
    | .ok objective =>
      { status := .feasibleNotProvenOptimal
        members := members
        objective := objective
        counters := { counters with explored_nodes := iterations } }

/-- Dispatch: the exact search at or below the candidate limit, the heuristic above. -/
def solve (p : ContainmentProblem) (budget : SolveBudget) (exact_node_limit : ℕ) : CutSolution :=
  if p.candidates.length ≤ exact_node_limit then solveExact p budget else solveHeuristic p budget

end Fcfn
