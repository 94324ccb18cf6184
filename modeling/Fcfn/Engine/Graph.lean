import Fcfn.Model.Topology

/-!
# Propagation graph

Two adjacency views of a topology: the conservative one (PROVEN and UNKNOWN edges) that every
safety claim uses, and the proven one that classifies witnesses. The source fills one list per node
in edge order; the list of a node is here the part of the edge list that leaves it. -/

namespace Fcfn

/-- Indexed view of a topology's propagation edges. -/
structure PropagationGraph where
  topology : Topology

namespace PropagationGraph

/-- The view of a topology. -/
def build (topology : Topology) : PropagationGraph := ⟨topology⟩

/-- The number of nodes. -/
def nodeCount (g : PropagationGraph) : ℕ := g.topology.nodeCount

/-- The targets of the PROVEN and UNKNOWN edges that leave a node. -/
def conservativeSuccessors (g : PropagationGraph) (node : NodeIndex) : List NodeIndex :=
  (g.topology.edges.filter (fun e => e.evidence != .refuted && e.from_ == node)).map Edge.to_

/-- The origins of the PROVEN and UNKNOWN edges that enter a node. -/
def conservativePredecessors (g : PropagationGraph) (node : NodeIndex) : List NodeIndex :=
  (g.topology.edges.filter (fun e => e.evidence != .refuted && e.to_ == node)).map Edge.from_

/-- The targets of the PROVEN edges that leave a node. -/
def provenSuccessors (g : PropagationGraph) (node : NodeIndex) : List NodeIndex :=
  (g.topology.edges.filter (fun e => e.evidence == .proven && e.from_ == node)).map Edge.to_

/-- Whether an UNKNOWN edge enters or leaves the node. -/
def touchesUnknownEdge (g : PropagationGraph) (node : NodeIndex) : Bool :=
  g.topology.edges.any (fun e => e.evidence == .unknown && (e.from_ == node || e.to_ == node))

/-- Whether a specific UNKNOWN edge exists. -/
def hasUnknownEdge (g : PropagationGraph) (f t : NodeIndex) : Bool :=
  g.topology.edges.any (fun e => e.evidence == .unknown && e.from_ == f && e.to_ == t)

/-- The number of UNKNOWN edges. -/
def unknownEdgeCount (g : PropagationGraph) : ℕ :=
  g.topology.edges.countP (fun e => e.evidence == .unknown)

/-- The edge relation of the conservative view. -/
def Conservative (g : PropagationGraph) (a b : NodeIndex) : Prop :=
  b ∈ g.conservativeSuccessors a

/-- A conservative edge is an edge of the topology that is not refuted. -/
theorem mem_conservativeSuccessors {g : PropagationGraph} {a b : NodeIndex} :
    b ∈ g.conservativeSuccessors a ↔
      ∃ e ∈ g.topology.edges, e.evidence ≠ .refuted ∧ e.from_ = a ∧ e.to_ = b := by
  simp [conservativeSuccessors, and_assoc]

/-- The two conservative adjacency lists agree. -/
theorem mem_conservativePredecessors {g : PropagationGraph} {a b : NodeIndex} :
    a ∈ g.conservativePredecessors b ↔ b ∈ g.conservativeSuccessors a := by
  simp only [conservativePredecessors, conservativeSuccessors, List.mem_map, List.mem_filter,
    Bool.and_eq_true, bne_iff_ne, beq_iff_eq]
  constructor
  · rintro ⟨e, ⟨he, hr, hto⟩, hfrom⟩
    exact ⟨e, ⟨he, hr, hfrom⟩, hto⟩
  · rintro ⟨e, ⟨he, hr, hfrom⟩, hto⟩
    exact ⟨e, ⟨he, hr, hto⟩, hfrom⟩

/-- Conservative edges join nodes of the graph. -/
theorem Conservative.lt {g : PropagationGraph} {a b : NodeIndex} (h : g.Conservative a b) :
    a < g.nodeCount ∧ b < g.nodeCount := by
  obtain ⟨e, he, -, rfl, rfl⟩ := mem_conservativeSuccessors.mp h
  have hv := g.topology.valid.edges_valid e he
  exact ⟨hv.from_lt, hv.to_lt⟩

end PropagationGraph

end Fcfn
