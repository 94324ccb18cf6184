import Fcfn.Engine.Graph
import Fcfn.Lib.Bfs

/-!
# The containment problem

A problem fixes a propagation graph, its failure sources and protected obligations, which nodes may
be contained, and the policy's bounds. `ContainmentProblem.build` makes one from an external
description, `verifyCut` checks every hard constraint on a proposed set, and
`verifyInfeasibilityWitness` checks a path that no set can cut.

A mark vector of the source is the list of its marked nodes, except `containable`, which is written
at several places and keeps a flag for each node. Node weights and identities are read from the
topology, of which the source keeps copies. Weights and bounds are natural numbers: the sums that
are formed without an overflow check range over at most 65536 nodes of weight at most 10^6. The
graph is always a built one, so the source's check for an unbuilt graph has no counterpart. -/

namespace Fcfn

open Words Sorted

/-- External description of one containment instance. -/
structure ContainmentInstanceSpec where
  failure_sources : List ResourceId
  protected_obligations : List ResourceId
  forced_ineligible : List ResourceId := []
  require_source_inclusion : Bool := true
  allow_protected_inclusion : Bool := false
  minimize_protected_inclusions : Bool := true
  max_total_weight : UInt64
  max_members : UInt64

/-- A containment instance over dense node indices. -/
structure ContainmentProblem where
  graph : PropagationGraph
  sources : List NodeIndex
  protected_nodes : List NodeIndex
  candidates : List NodeIndex
  uncontainable_sources : List NodeIndex
  barred_nodes : List NodeIndex
  frontier : List NodeIndex
  relevant : List NodeIndex
  containable : List Bool
  require_source_inclusion : Bool
  allow_protected_inclusion : Bool
  minimize_protected_inclusions : Bool
  max_total_weight : ℕ
  max_members : ℕ
  instance_digest : Digest

namespace ContainmentProblem

/-- The number of nodes. -/
def nodeCount (p : ContainmentProblem) : ℕ := p.graph.nodeCount

/-- Whether the instance may contain the node. -/
def isContainable (p : ContainmentProblem) (node : NodeIndex) : Bool :=
  p.containable.getD node false

/-- Whether the node is a protected obligation. -/
def isProtected (p : ContainmentProblem) (node : NodeIndex) : Bool :=
  decide (node ∈ p.protected_nodes)

/-- Whether the node is a failure source. -/
def isSource (p : ContainmentProblem) (node : NodeIndex) : Bool :=
  decide (node ∈ p.sources)

/-- The containment weight of the node. -/
def weight (p : ContainmentProblem) (node : NodeIndex) : ℕ :=
  (p.graph.topology.node node).weight.toNat

/-- The identity of the node. -/
def resourceId (p : ContainmentProblem) (node : NodeIndex) : ResourceId :=
  (p.graph.topology.node node).id

/-! ## Building -/

/-- The instance before any identity is resolved. -/
def start (graph : PropagationGraph) (spec : ContainmentInstanceSpec) : ContainmentProblem where
  graph := graph
  sources := []
  protected_nodes := []
  candidates := []
  uncontainable_sources := []
  barred_nodes := []
  frontier := []
  relevant := []
  containable := graph.topology.nodes.map NodeSpec.containable
  require_source_inclusion := spec.require_source_inclusion
  allow_protected_inclusion := spec.allow_protected_inclusion
  minimize_protected_inclusions := spec.minimize_protected_inclusions
  max_total_weight := spec.max_total_weight.toNat
  max_members := spec.max_members.toNat
  instance_digest := Digest.zero

/-- Force a resource to be ineligible. -/
def bar (p : ContainmentProblem) (id : ResourceId) : Result ContainmentProblem :=
  match p.graph.topology.find id with
  | none => fail .notFound "forced-ineligible resource is not in the topology"
  | some index =>
    .ok { p with
      containable := p.containable.set index false
      barred_nodes := p.barred_nodes ++ [index] }

/-- The barred nodes, sorted and without repeats. -/
def sortBarred (p : ContainmentProblem) : ContainmentProblem :=
  { p with barred_nodes := (sortBy id p.barred_nodes).dedup }

/-- Add a failure source. Sources are added before any obligation is, so the last check, on the
obligations, has none to look at. -/
def addSource (p : ContainmentProblem) (id : ResourceId) : Result ContainmentProblem :=
  match p.graph.topology.find id with
  | none => fail .notFound "failure source is not present in the topology"
  | some index => do
    require (!p.isSource index) .alreadyExists "duplicate failure source"
    require (!p.isProtected index) .invalidArgument "a resource cannot be both failed and protected"
    return { p with sources := p.sources ++ [index] }

/-- Add a protected obligation, which is containable only when the policy allows it. -/
def addObligation (p : ContainmentProblem) (id : ResourceId) : Result ContainmentProblem :=
  match p.graph.topology.find id with
  | none => fail .notFound "protected obligation is not present in the topology"
  | some index => do
    require (!p.isProtected index) .alreadyExists "duplicate protected obligation"
    return { p with
      protected_nodes := p.protected_nodes ++ [index]
      containable := p.containable.set index p.allow_protected_inclusion }

/-- The obligations, sorted. -/
def sortProtected (p : ContainmentProblem) : ContainmentProblem :=
  { p with protected_nodes := sortBy id p.protected_nodes }

/-- What is reachable from the sources, in ascending order. -/
def computeFrontier (p : ContainmentProblem) : List NodeIndex :=
  sortBy id (Bfs.visited p.graph.conservativeSuccessors [] p.nodeCount p.sources)

/-- What can still reach a protected obligation. -/
def computeRelevant (p : ContainmentProblem) : List NodeIndex :=
  Bfs.visited p.graph.conservativePredecessors [] p.nodeCount p.protected_nodes

/-- The nodes on some source-to-obligation path, and the eligible sources that must be contained,
in ascending order. -/
def computeCandidates (p : ContainmentProblem) : List NodeIndex :=
  (List.range p.nodeCount).filter fun node =>
    (node ∈ p.frontier && node ∈ p.relevant) ||
      (p.require_source_inclusion && p.isSource node && p.isContainable node)

/-- Canonical digest of everything that defines the instance. -/
def computeDigest (p : ContainmentProblem) (spec : ContainmentInstanceSpec) : Digest :=
  digestOf <|
    Write.digest p.graph.topology.definitionDigest ++
    Write.size spec.failure_sources.length ++ p.sources.flatMap Write.size ++
    Write.size spec.protected_obligations.length ++ p.protected_nodes.flatMap Write.size ++
    Write.size p.uncontainable_sources.length ++ p.uncontainable_sources.flatMap Write.size ++
    Write.size p.candidates.length ++
    p.candidates.flatMap (fun c => Write.size c ++ Write.u64 (UInt64.ofNat (p.weight c))) ++
    Write.size p.barred_nodes.length ++ p.barred_nodes.flatMap Write.size ++
    Write.boolean spec.require_source_inclusion ++ Write.boolean spec.allow_protected_inclusion ++
    Write.boolean spec.minimize_protected_inclusions ++ Write.u64 spec.max_total_weight ++
    Write.u64 spec.max_members

/-- What is derived once the sources and obligations are known. -/
def derive (p : ContainmentProblem) (spec : ContainmentInstanceSpec) : ContainmentProblem :=
  let p := { p with uncontainable_sources := p.sources.filter (fun s => !p.isContainable s) }
  let p := { p with frontier := p.computeFrontier }
  let p := { p with relevant := p.computeRelevant }
  let p := { p with candidates := p.computeCandidates }
  { p with instance_digest := p.computeDigest spec }

/-- Validate and index an instance. -/
def build (graph : PropagationGraph) (spec : ContainmentInstanceSpec) :
    Result ContainmentProblem := do
  require (spec.failure_sources != []) .invalidArgument
    "containment instance requires at least one failure source"
  require (spec.protected_obligations != []) .invalidArgument
    "containment instance requires at least one protected obligation"
  require (spec.failure_sources.length ≤ kMaxFailureSources) .limitExceeded
    "failure source count exceeds bound"
  require (spec.protected_obligations.length ≤ kMaxProtectedObligations) .limitExceeded
    "protected obligation count exceeds bound"
  require (spec.max_members != 0 && spec.max_members.toNat ≤ kMaxBoundaryMembers) .invalidArgument
    "member bound out of range"
  let p ← spec.forced_ineligible.foldlM bar (start graph spec)
  let p ← spec.failure_sources.foldlM addSource p.sortBarred
  let p ← spec.protected_obligations.foldlM addObligation p
  return p.sortProtected.derive spec

end ContainmentProblem

/-! ## Objectives -/

/-- Lexicographic objective value. -/
structure ObjectiveVector where
  protected_inclusions : ℕ
  total_weight : ℕ
  cardinality : ℕ
  signature : List ResourceId
  deriving DecidableEq, Repr

/-- The objective order, honouring the policy's minimisation flag. -/
def objectiveLess (a b : ObjectiveVector) (minimize_protected : Bool) : Bool :=
  if minimize_protected && a.protected_inclusions != b.protected_inclusions then
    a.protected_inclusions < b.protected_inclusions
  else if a.total_weight != b.total_weight then a.total_weight < b.total_weight
  else if a.cardinality != b.cardinality then a.cardinality < b.cardinality
  else decide (a.signature < b.signature)

/-! ## Verification -/

/-- Whether a source reaches a protected obligation around the excluded nodes. -/
def sourceReachesProtected (p : ContainmentProblem) (excluded : List NodeIndex) : Bool :=
  let st := Bfs.discover excluded p.sources ([], [])
  Bfs.meets p.graph.conservativeSuccessors excluded p.isProtected p.nodeCount st.1 st.2

/-- The checks on one member of a proposed set, adding it to the running totals of protected
inclusions and weight. -/
def accumulateMember (p : ContainmentProblem) (totals : ℕ × ℕ) (node : NodeIndex) :
    Result (ℕ × ℕ) := do
  require (node < p.nodeCount) .invalidArgument "containment member index out of range"
  require (p.isContainable node) .denied "containment member is not eligible for containment"
  require (!p.isProtected node || p.allow_protected_inclusion) .denied
    "protected obligation may not be contained by this policy"
  match checkedAdd totals.2 (p.weight node) with
  | none => fail .limitExceeded "containment weight overflowed"
  | some total_weight => return (totals.1 + if p.isProtected node then 1 else 0, total_weight)

/-- The independent verifier: every hard constraint on a proposed set, and its objective. -/
def verifyCut (p : ContainmentProblem) (members : List NodeIndex) : Result ObjectiveVector := do
  require (members.length ≤ p.max_members) .limitExceeded
    "containment set exceeds the member bound"
  let sorted := sortBy id members
  require (sorted.IsChain (· ≠ ·)) .alreadyExists "duplicate containment member"
  let totals ← sorted.foldlM (accumulateMember p) (0, 0)
  require (totals.2 ≤ p.max_total_weight) .limitExceeded "containment set exceeds the weight bound"
  require (!p.require_source_inclusion ||
      p.sources.all (fun s => !p.isContainable s || decide (s ∈ sorted))) .denied
    "eligible failure source is not contained"
  require (!sourceReachesProtected p sorted) .denied
    "containment set does not disconnect failure sources from protected obligations"
  return ⟨totals.1, totals.2, sorted.length, sorted.map p.resourceId⟩

/-- Whether a path is a compact infeasibility certificate: it leads from a source to a protected
obligation in the conservative graph through nodes that may not be contained. -/
def verifyInfeasibilityWitness (p : ContainmentProblem) (path : List NodeIndex) : Bool :=
  2 ≤ path.length && (path.head?.any p.isSource) && (path.getLast?.any p.isProtected) &&
    path.all (fun node => !p.isContainable node) &&
    decide (path.IsChain (fun a b => b ∈ p.graph.conservativeSuccessors a))

end Fcfn
