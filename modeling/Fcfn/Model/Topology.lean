import Mathlib.Data.Prod.Lex
import Mathlib.Tactic.Ring
import Fcfn.Core.Canonical
import Fcfn.Lib.Sorted

/-!
# Topology

A topology is a validated definition: `Topology.build` sorts the nodes by identity and the edges by
their endpoints, and refuses what breaks a rule of the definition. What it accepts carries the
rules as a field (`TopologyDef.Valid`), so a topology that breaks one cannot be stated.

Node indices are positions in the sorted node list. The per-node lists of edge indices the source
also keeps are not read by any modelled function and are left out. -/

namespace Fcfn

open Words Codec Sorted

/-- Evidence class of a propagation edge. -/
inductive EdgeEvidence
  | proven | unknown | refuted
  deriving DecidableEq, Repr

/-- How complete the adjacency information of a node is believed to be. -/
inductive AdjacencyCompleteness
  | complete | partly | unknown
  deriving DecidableEq, Repr

/-- External description of one node. -/
structure NodeSpec where
  id : ResourceId
  containable : Bool
  weight : UInt64
  protected_obligation : Bool
  completeness : AdjacencyCompleteness
  deriving DecidableEq, Repr

/-- External description of one edge: failure at `from_` may reach `to_`. -/
structure EdgeSpec where
  from_ : ResourceId
  to_ : ResourceId
  evidence : EdgeEvidence
  generation : EvidenceGeneration
  deriving DecidableEq, Repr

/-- External description of a whole topology. -/
structure TopologySpec where
  generation : TopologyGeneration
  nodes : List NodeSpec
  edges : List EdgeSpec
  deriving DecidableEq, Repr

/-- Dense node index. -/
abbrev NodeIndex := ℕ

/-- A materialised edge. -/
structure Edge where
  from_ : NodeIndex
  to_ : NodeIndex
  evidence : EdgeEvidence
  generation : EvidenceGeneration
  deriving DecidableEq, Repr

/-- The key edges are sorted by. -/
def Edge.key (e : Edge) : ℕ ×ₗ ℕ := toLex (e.from_, e.to_)

/-- The content of a topology. -/
structure TopologyDef where
  generation : TopologyGeneration
  nodes : List NodeSpec
  edges : List Edge
  deriving DecidableEq, Repr

/-- What a node of an accepted definition satisfies. -/
structure NodeSpec.Valid (node : NodeSpec) : Prop where
  canonical : isValidResourceId node.id = true
  weight_ne_zero : node.weight ≠ 0
  weight_le : node.weight.toNat ≤ kMaxNodeWeight
  not_both : ¬ (node.protected_obligation = true ∧ node.containable = true)

/-- What an edge of an accepted definition over `n` nodes satisfies. -/
structure Edge.Valid (n : ℕ) (e : Edge) : Prop where
  from_lt : e.from_ < n
  to_lt : e.to_ < n
  ne : e.from_ ≠ e.to_
  generation_ne_zero : e.generation ≠ 0

/-- The rules of an accepted definition. -/
structure TopologyDef.Valid (t : TopologyDef) : Prop where
  generation_ne_zero : t.generation ≠ 0
  nodes_ne_nil : t.nodes ≠ []
  nodes_le : t.nodes.length ≤ kMaxTopologyNodes
  edges_le : t.edges.length ≤ kMaxTopologyEdges
  nodes_valid : ∀ node ∈ t.nodes, node.Valid
  nodes_ascending : Ascending NodeSpec.id t.nodes
  edges_valid : ∀ e ∈ t.edges, e.Valid t.nodes.length
  edges_ascending : Ascending Edge.key t.edges

/-- A validated topology definition. -/
structure Topology extends TopologyDef where
  valid : toTopologyDef.Valid

/-- Topologies with equal content are equal. -/
theorem Topology.ext' {t t' : Topology} (h : t.toTopologyDef = t'.toTopologyDef) : t = t' := by
  cases t; cases t'; simp_all

instance : DecidableEq Topology := fun t t' =>
  decidable_of_iff (t.toTopologyDef = t'.toTopologyDef)
    ⟨Topology.ext', fun h => h ▸ rfl⟩

/-- The index of an identity in a node list. -/
def findNode (nodes : List NodeSpec) (id : ResourceId) : Option NodeIndex :=
  nodes.findIdx? (fun node => node.id == id)

/-! ## Building -/

/-- The checks on the sorted nodes, in order; `previous` is the identity of the node before. -/
def checkNodes : Option ResourceId → List NodeSpec → Result Unit
  | _, [] => .ok ()
  | previous, node :: rest => do
    require (isValidResourceId node.id) .invalidArgument "node id is not in canonical form"
    require (previous != some node.id) .invalidArgument "duplicate node id"
    require (node.weight != 0 && node.weight.toNat ≤ kMaxNodeWeight)
      .invalidArgument "node weight out of range"
    require (!(node.protected_obligation && node.containable))
      .invalidArgument "protected obligation may not be pre-marked containable"
    checkNodes (some node.id) rest

/-- Look up the endpoints of an edge and check it. -/
def resolveEdge (nodes : List NodeSpec) (edge : EdgeSpec) : Result Edge :=
  match findNode nodes edge.from_, findNode nodes edge.to_ with
  | none, _ => fail .notFound "edge endpoint is not a known node"
  | some _, none => fail .notFound "edge endpoint is not a known node"
  | some f, some t => do
    require (f != t) .invalidArgument "self-referential propagation edge"
    require (edge.generation != 0) .invalidArgument "edge evidence generation must be non-zero"
    return ⟨f, t, edge.evidence, edge.generation⟩

/-- The check that no two neighbours among the sorted edges have the same endpoints. -/
def checkEdges : List Edge → Result Unit
  | [] => .ok ()
  | [_] => .ok ()
  | e :: e' :: rest => do
    require (!(e'.from_ == e.from_ && e'.to_ == e.to_)) .alreadyExists "duplicate propagation edge"
    checkEdges (e' :: rest)

/-- Validate and materialise the content of a definition. -/
def TopologyDef.build (spec : TopologySpec) : Result TopologyDef := do
  require (spec.generation != 0) .invalidArgument "topology generation must be non-zero"
  require (spec.nodes.length ≤ kMaxTopologyNodes)
    .limitExceeded "topology node count exceeds bound"
  require (spec.edges.length ≤ kMaxTopologyEdges)
    .limitExceeded "topology edge count exceeds bound"
  require (spec.nodes != []) .invalidArgument "topology must contain at least one node"
  let nodes := sortBy NodeSpec.id spec.nodes
  checkNodes none nodes
  let raw ← spec.edges.mapM (resolveEdge nodes)
  let edges := sortBy Edge.key raw
  checkEdges edges
  return ⟨spec.generation, nodes, edges⟩

/-- Nodes that pass their checks are valid, and no two neighbours share an identity. -/
theorem checkNodes_spec {previous : Option ResourceId} {nodes : List NodeSpec} {u : Unit}
    (h : checkNodes previous nodes = .ok u) :
    (∀ node ∈ nodes, node.Valid) ∧ (∀ node, nodes.head? = some node → previous ≠ some node.id) ∧
      nodes.IsChain (fun a b => a.id ≠ b.id) := by
  induction nodes generalizing previous with
  | nil => simp
  | cons node rest ih =>
    simp only [checkNodes, require_bind_eq_ok, Bool.and_eq_true, bne_iff_ne, decide_eq_true_eq,
      Bool.not_eq_true', Bool.and_eq_false_iff] at h
    obtain ⟨hid, hprev, hweight, hboth, hrest⟩ := h
    obtain ⟨hvalid, hhead, hchain⟩ := ih hrest
    refine ⟨fun x hx => ?_, fun x hx => ?_, ?_⟩
    · rcases List.mem_cons.mp hx with rfl | hx
      · exact ⟨hid, hweight.1, hweight.2, by rintro ⟨h1, h2⟩; simp [h1, h2] at hboth⟩
      · exact hvalid x hx
    · simp only [List.head?_cons, Option.some.injEq] at hx
      exact hx ▸ hprev
    · rw [List.isChain_cons]
      exact ⟨fun y hy heq => hhead y hy (by rw [heq]), hchain⟩

/-- The index of an identity is within the list, and the node there has it. -/
theorem findNode_eq_some {nodes : List NodeSpec} {id : ResourceId} {i : NodeIndex}
    (h : findNode nodes id = some i) : ∃ hi : i < nodes.length, nodes[i].id = id := by
  rw [findNode, List.findIdx?_eq_some_iff_getElem] at h
  obtain ⟨hi, hid, -⟩ := h
  exact ⟨hi, by simpa using hid⟩

/-- No index means no node with the identity. -/
theorem findNode_eq_none {nodes : List NodeSpec} {id : ResourceId} :
    findNode nodes id = none ↔ ∀ node ∈ nodes, node.id ≠ id := by
  simp [findNode, List.findIdx?_eq_none_iff]

/-- In a list with distinct identities a node is found at its own index. -/
theorem findNode_getElem {nodes : List NodeSpec} (h : Ascending NodeSpec.id nodes) {i : NodeIndex}
    (hi : i < nodes.length) : findNode nodes nodes[i].id = some i := by
  rw [findNode, List.findIdx?_eq_some_iff_getElem]
  refine ⟨hi, by simp, fun j hj => ?_⟩
  have hjlt : j < nodes.length := lt_trans hj hi
  have hlt := List.pairwise_iff_getElem.mp h j i (by simpa) (by simpa) hj
  simp only [List.getElem_map] at hlt
  simpa using ne_of_lt hlt

/-- An edge that resolves is valid and joins the indices of its endpoints. -/
theorem resolveEdge_spec {nodes : List NodeSpec} {edge : EdgeSpec} {e : Edge}
    (h : resolveEdge nodes edge = .ok e) :
    e.Valid nodes.length ∧ findNode nodes edge.from_ = some e.from_ ∧
      findNode nodes edge.to_ = some e.to_ ∧ e.evidence = edge.evidence ∧
      e.generation = edge.generation := by
  rw [resolveEdge] at h
  split at h
  · simp [fail] at h
  · simp [fail] at h
  · rename_i f t hf ht
    simp only [require_bind_eq_ok, bne_iff_ne, pure_eq_ok] at h
    obtain ⟨hne, hgen, rfl⟩ := h
    obtain ⟨hflt, -⟩ := findNode_eq_some hf
    obtain ⟨htlt, -⟩ := findNode_eq_some ht
    exact ⟨⟨hflt, htlt, hne, hgen⟩, hf, ht, rfl, rfl⟩

/-- Edges that pass the check have no two neighbours with the same endpoints. -/
theorem checkEdges_spec {edges : List Edge} {u : Unit} (h : checkEdges edges = .ok u) :
    edges.IsChain (fun a b => a.key ≠ b.key) := by
  induction edges with
  | nil => simp
  | cons e rest ih =>
    cases rest with
    | nil => simp
    | cons e' rest =>
      simp only [checkEdges, require_bind_eq_ok, Bool.not_eq_true', Bool.and_eq_false_iff,
        beq_eq_false_iff_ne] at h
      obtain ⟨hne, hrest⟩ := h
      rw [List.isChain_cons_cons]
      refine ⟨fun heq => ?_, ih hrest⟩
      simp only [Edge.key, toLex_inj, Prod.mk.injEq] at heq
      exact hne.elim (fun h => h heq.1.symm) (fun h => h heq.2.symm)

/-- What is built is valid. -/
theorem TopologyDef.build_valid {spec : TopologySpec} {t : TopologyDef}
    (h : TopologyDef.build spec = .ok t) : t.Valid := by
  simp only [TopologyDef.build, require_bind_eq_ok, bne_iff_ne, decide_eq_true_eq] at h
  obtain ⟨hgen, hnodes, hedges, hne, h⟩ := h
  simp only [bind_eq_ok, pure_eq_ok] at h
  obtain ⟨_, hcheck, raw, hraw, _, hcheckE, rfl⟩ := h
  obtain ⟨hvalid, -, hchain⟩ := checkNodes_spec hcheck
  obtain ⟨hlen, hmem⟩ := mem_of_mapM_ok hraw
  refine ⟨hgen, ?_, by simpa using hnodes, by simpa [hlen] using hedges, hvalid,
    ascending_of_isChain pairwise_sortBy hchain, fun e he => ?_,
    ascending_of_isChain pairwise_sortBy (checkEdges_spec hcheckE)⟩
  · intro hnil
    have := congrArg List.length hnil
    simp only [length_sortBy, List.length_nil] at this
    exact hne (List.eq_nil_of_length_eq_zero this)
  · obtain ⟨a, -, ha⟩ := hmem e (mem_sortBy.mp he)
    exact (resolveEdge_spec ha).1

/-- Validate and materialise a topology. -/
def Topology.build (spec : TopologySpec) : Result Topology :=
  match h : TopologyDef.build spec with
  | .error e => .error e
  | .ok t => .ok ⟨t, TopologyDef.build_valid h⟩

/-- Building a topology is building its content. -/
theorem Topology.build_eq_ok {spec : TopologySpec} {t : Topology} :
    Topology.build spec = .ok t ↔ TopologyDef.build spec = .ok t.toTopologyDef := by
  rw [Topology.build]
  split
  · rename_i e h; simp [h]
  · rename_i d h
    simp only [h, Except.ok.injEq]
    exact ⟨fun heq => heq ▸ rfl, fun heq => Topology.ext' heq⟩

namespace Topology

/-- The number of nodes. -/
def nodeCount (t : Topology) : ℕ := t.nodes.length

/-- The index of a resource. -/
def find (t : Topology) (id : ResourceId) : Option NodeIndex := findNode t.nodes id

/-- The node at an index; past the end, a node that nothing names. -/
def node (t : Topology) (i : NodeIndex) : NodeSpec :=
  t.nodes.getD i ⟨[], false, 0, false, .unknown⟩

/-- The node at an index within the list. -/
theorem node_eq_getElem (t : Topology) {i : NodeIndex} (hi : i < t.nodes.length) :
    t.node i = t.nodes[i] := by
  rw [node, List.getD_eq_getElem?_getD, List.getElem?_eq_getElem hi, Option.getD_some]

/-- The nodes are those at the indices. -/
theorem mem_nodes_iff (t : Topology) {node : NodeSpec} :
    node ∈ t.nodes ↔ ∃ i < t.nodeCount, t.node i = node := by
  rw [List.mem_iff_getElem]
  constructor
  · rintro ⟨i, hi, rfl⟩
    exact ⟨i, hi, t.node_eq_getElem hi⟩
  · rintro ⟨i, hi, rfl⟩
    exact ⟨i, hi, (t.node_eq_getElem hi).symm⟩

/-- A node is found at its index. -/
theorem find_node (t : Topology) {i : NodeIndex} (hi : i < t.nodeCount) :
    t.find (t.node i).id = some i := by
  have hi' : i < t.nodes.length := hi
  rw [t.node_eq_getElem hi']
  exact findNode_getElem t.valid.nodes_ascending hi'

/-- The nodes are valid. -/
theorem node_valid (t : Topology) {i : NodeIndex} (hi : i < t.nodeCount) : (t.node i).Valid :=
  t.valid.nodes_valid _ (t.mem_nodes_iff.mpr ⟨i, hi, rfl⟩)

end Topology

/-! ## Canonical form -/

/-- The byte of an edge evidence class. -/
def EdgeEvidence.toByte : EdgeEvidence → UInt8
  | .proven => 0
  | .unknown => 1
  | .refuted => 2

/-- The edge evidence class of a byte. -/
def EdgeEvidence.ofByte (b : UInt8) : EdgeEvidence :=
  if b = 0 then .proven else if b = 1 then .unknown else .refuted

/-- The byte of an adjacency completeness. -/
def AdjacencyCompleteness.toByte : AdjacencyCompleteness → UInt8
  | .complete => 0
  | .partly => 1
  | .unknown => 2

/-- The adjacency completeness of a byte. -/
def AdjacencyCompleteness.ofByte (b : UInt8) : AdjacencyCompleteness :=
  if b = 0 then .complete else if b = 1 then .partly else .unknown

namespace Topology

/-- The bytes of one node. -/
def encodeNode (node : NodeSpec) : Bytes :=
  Write.resourceId node.id ++ Write.boolean node.containable ++ Write.u64 node.weight ++
    Write.boolean node.protected_obligation ++ Write.u8 node.completeness.toByte

/-- The bytes of one edge. -/
def encodeEdge (e : Edge) : Bytes :=
  Write.size e.from_ ++ Write.size e.to_ ++ Write.u8 e.evidence.toByte ++ Write.u64 e.generation

/-- Canonical byte encoding of the definition. -/
def encode (t : Topology) : Bytes :=
  Write.u64 t.generation ++ Write.size t.nodes.length ++ t.nodes.flatMap encodeNode ++
    Write.size t.edges.length ++ t.edges.flatMap encodeEdge

/-- Canonical digest of the whole definition. -/
def definitionDigest (t : Topology) : Digest := digestOf t.encode

/-- Read one node. -/
def readNode : Read NodeSpec := do
  let id ← Read.resourceId
  let containable ← Read.boolean
  let weight ← Read.u64
  let protected_obligation ← Read.boolean
  let completeness ← Read.u8
  Read.refuse (completeness > 2) .invalidArgument "invalid adjacency completeness value"
  return ⟨id, containable, weight, protected_obligation, .ofByte completeness⟩

/-- Read one edge between the nodes read before it. -/
def readEdge (nodes : List NodeSpec) : Read EdgeSpec := do
  let f ← Read.u32
  let t ← Read.u32
  let evidence ← Read.u8
  let generation ← Read.u64
  Read.refuse (f.toNat ≥ nodes.length ∨ t.toNat ≥ nodes.length)
    .invalidArgument "encoded edge endpoint out of range"
  Read.refuse (evidence > 2) .invalidArgument "invalid edge evidence value"
  return ⟨(nodes.getD f.toNat ⟨[], false, 0, false, .unknown⟩).id,
    (nodes.getD t.toNat ⟨[], false, 0, false, .unknown⟩).id, .ofByte evidence, generation⟩

/-- Read a definition. -/
def readSpec : Read TopologySpec := do
  let generation ← Read.u64
  let node_count ← Read.count kMaxTopologyNodes "encoded node count exceeds bound"
  let nodes ← many readNode node_count
  let edge_count ← Read.count kMaxTopologyEdges "encoded edge count exceeds bound"
  let edges ← many (readEdge nodes) edge_count
  return ⟨generation, nodes, edges⟩

/-- Decode a canonical encoding and validate what it describes. -/
def decode (bytes : Bytes) : Result Topology := do
  let spec ← Read.document readSpec bytes
  Topology.build spec

end Topology

/-! ## Round trip -/

namespace Topology

/-- The description that a definition's canonical encoding holds. -/
def toSpec (t : Topology) : TopologySpec where
  generation := t.generation
  nodes := t.nodes
  edges := t.edges.map fun e => ⟨(t.node e.from_).id, (t.node e.to_).id, e.evidence, e.generation⟩

/-- A list of valid nodes with ascending identities passes the checks. -/
theorem checkNodes_of_ascending {nodes : List NodeSpec} (hvalid : ∀ node ∈ nodes, node.Valid)
    (hascending : Ascending NodeSpec.id nodes) {previous : Option ResourceId}
    (hprevious : ∀ node, nodes.head? = some node → previous ≠ some node.id) :
    checkNodes previous nodes = .ok () := by
  induction nodes generalizing previous with
  | nil => rfl
  | cons node rest ih =>
    have hnode := hvalid node (by simp)
    have hboth : (node.protected_obligation && node.containable) = false := by
      rw [Bool.and_eq_false_iff]
      by_contra hnot
      rw [not_or, Bool.not_eq_false, Bool.not_eq_false] at hnot
      exact hnode.not_both hnot
    rw [Ascending, List.map_cons, List.pairwise_cons] at hascending
    simp only [checkNodes, require_bind_eq_ok, Bool.and_eq_true, bne_iff_ne, decide_eq_true_eq,
      hboth, Bool.not_false]
    refine ⟨hnode.canonical, hprevious node rfl, ⟨hnode.weight_ne_zero, hnode.weight_le⟩, trivial,
      ih (fun n hn => hvalid n (List.mem_cons_of_mem _ hn)) hascending.2 fun n hn heq => ?_⟩
    have hmem : n ∈ rest := List.mem_of_mem_head? hn
    have hlt := hascending.1 n.id (List.mem_map.mpr ⟨n, hmem, rfl⟩)
    rw [Option.some.inj heq] at hlt
    exact lt_irrefl _ hlt

/-- A list of edges with ascending endpoints passes the check. -/
theorem checkEdges_of_ascending {edges : List Edge} (h : Ascending Edge.key edges) :
    checkEdges edges = .ok () := by
  induction edges with
  | nil => rfl
  | cons e rest ih =>
    rw [Ascending, List.map_cons, List.pairwise_cons] at h
    cases rest with
    | nil => rfl
    | cons e' rest =>
      have hlt : e.key < e'.key := h.1 _ (by simp)
      simp only [checkEdges, require_bind_eq_ok, Bool.not_eq_true', Bool.and_eq_false_iff,
        beq_eq_false_iff_ne]
      refine ⟨?_, ih h.2⟩
      by_contra hnot
      rw [not_or, not_ne_iff, not_ne_iff] at hnot
      exact absurd hlt (by rw [Edge.key, Edge.key, hnot.1, hnot.2]; exact lt_irrefl _)

/-- The edges of a definition are found from its description. -/
theorem mapM_resolveEdge (t : Topology) {edges : List Edge} (h : ∀ e ∈ edges, e ∈ t.edges) :
    (edges.map fun e => (⟨(t.node e.from_).id, (t.node e.to_).id, e.evidence, e.generation⟩ :
      EdgeSpec)).mapM (resolveEdge t.nodes) = .ok edges := by
  induction edges with
  | nil => rfl
  | cons e rest ih =>
    have hvalid := t.valid.edges_valid e (h e (by simp))
    have hfrom : findNode t.nodes (t.node e.from_).id = some e.from_ := t.find_node hvalid.from_lt
    have hto : findNode t.nodes (t.node e.to_).id = some e.to_ := t.find_node hvalid.to_lt
    have hresolve : resolveEdge t.nodes
        ⟨(t.node e.from_).id, (t.node e.to_).id, e.evidence, e.generation⟩ = .ok e := by
      simp only [resolveEdge, hfrom, hto, require_bind_eq_ok, bne_iff_ne, pure_eq_ok]
      exact ⟨hvalid.ne, hvalid.generation_ne_zero, trivial⟩
    rw [List.map_cons, List.mapM_cons, bind_eq_ok]
    refine ⟨e, hresolve, ?_⟩
    rw [bind_eq_ok]
    exact ⟨rest, ih fun e' he' => h e' (List.mem_cons_of_mem _ he'), rfl⟩

/-- A definition is built from its description. -/
theorem build_toSpec (t : Topology) : build t.toSpec = .ok t := by
  have hvalid := t.valid
  have hnodes : sortBy NodeSpec.id t.nodes = t.nodes := sortBy_eq_self hvalid.nodes_ascending
  have hedges : sortBy Edge.key t.edges = t.edges := sortBy_eq_self hvalid.edges_ascending
  rw [build_eq_ok, TopologyDef.build]
  simp only [require_bind_eq_ok, bne_iff_ne, toSpec, List.length_map]
  refine ⟨hvalid.generation_ne_zero, decide_eq_true hvalid.nodes_le, decide_eq_true hvalid.edges_le,
    hvalid.nodes_ne_nil, ?_⟩
  rw [hnodes]
  simp only [bind_eq_ok, pure_eq_ok]
  refine ⟨(), checkNodes_of_ascending hvalid.nodes_valid hvalid.nodes_ascending (by simp), t.edges,
    t.mapM_resolveEdge fun e he => he, (), ?_, ?_⟩
  · rw [hedges]
    exact checkEdges_of_ascending hvalid.edges_ascending
  · rw [hedges]

/-- A node is read back. -/
theorem reads_node {node : NodeSpec} (h : node.Valid) : Reads readNode (encodeNode node) node := by
  unfold readNode encodeNode
  simp only [List.append_assoc]
  refine (reads_resourceId h.canonical).bind ((reads_boolean _).bind ((reads_u64 _).bind
    ((reads_boolean _).bind ((reads_u8 _).bind_pure (Reads.skip (reads_refuse ?_) ?_)))))
  · cases node.completeness <;> decide
  · have hbyte : AdjacencyCompleteness.ofByte node.completeness.toByte = node.completeness := by
      cases node.completeness <;> rfl
    rw [hbyte]
    exact Reads.pure _

/-- The number of nodes fits 32 bits. -/
theorem toNat_index {t : Topology} {i : NodeIndex} (h : i < t.nodes.length) :
    (UInt32.ofNat i).toNat = i := by
  have hle : t.nodes.length ≤ 65536 := t.valid.nodes_le
  exact toNat_size (lt_of_lt_of_le h (hle.trans (by decide)))

/-- An edge is read back as its description. -/
theorem reads_edge (t : Topology) {e : Edge} (h : e ∈ t.edges) :
    Reads (readEdge t.nodes) (encodeEdge e)
      ⟨(t.node e.from_).id, (t.node e.to_).id, e.evidence, e.generation⟩ := by
  have hvalid := t.valid.edges_valid e h
  have hfrom := toNat_index hvalid.from_lt
  have hto := toNat_index hvalid.to_lt
  unfold readEdge encodeEdge
  simp only [List.append_assoc, Write.size]
  refine (reads_u32 _).bind ((reads_u32 _).bind ((reads_u8 _).bind ((reads_u64 _).bind_pure
    (Reads.skip (reads_refuse ?_) (Reads.skip (reads_refuse ?_) ?_)))))
  · rw [hfrom, hto, not_or]
    exact ⟨not_le.mpr hvalid.from_lt, not_le.mpr hvalid.to_lt⟩
  · cases e.evidence <;> decide
  · have hbyte : EdgeEvidence.ofByte e.evidence.toByte = e.evidence := by
      cases e.evidence <;> rfl
    rw [hfrom, hto, hbyte]
    exact Reads.pure _

/-- The edges are read back as their descriptions. -/
theorem reads_edges (t : Topology) :
    Reads (many (readEdge t.nodes) t.edges.length) (t.edges.flatMap encodeEdge) t.toSpec.edges := by
  have hitems : ∀ edges : List Edge, (∀ e ∈ edges, e ∈ t.edges) →
      Reads (many (readEdge t.nodes) edges.length) (edges.flatMap encodeEdge)
        (edges.map fun e => ⟨(t.node e.from_).id, (t.node e.to_).id, e.evidence, e.generation⟩) := by
    intro edges
    induction edges with
    | nil => exact fun _ => Reads.pure _
    | cons e rest ih =>
      intro hmem
      rw [List.flatMap_cons, List.map_cons]
      refine (t.reads_edge (hmem e (by simp))).bind
        ((ih fun e' he' => hmem e' (List.mem_cons_of_mem _ he')).bind_pure ?_)
      exact Reads.pure _
  exact hitems t.edges fun e he => he

/-- A definition is read back as its description. -/
theorem reads_spec (t : Topology) : Reads readSpec t.encode t.toSpec := by
  have hvalid := t.valid
  unfold readSpec encode
  simp only [List.append_assoc]
  refine (reads_u64 _).bind ((reads_count hvalid.nodes_le (by decide)).bind
    ((Reads.many t.nodes fun node hnode => reads_node (hvalid.nodes_valid node hnode)).bind
      ((reads_count hvalid.edges_le (by decide)).bind (t.reads_edges.bind_pure ?_))))
  exact Reads.pure _

/-- The canonical encoding of a definition is decoded as the definition. -/
theorem decode_encode (t : Topology) : decode t.encode = .ok t := by
  rw [decode, bind_eq_ok]
  exact ⟨t.toSpec, t.reads_spec.runAll _, t.build_toSpec⟩

end Topology
end Fcfn
