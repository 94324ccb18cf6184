import Fcfn.Model.Plan
import Fcfn.Model.Topology
import Fcfn.Model.Evidence

/-!
# Canonical encodings

What the decoders of the four documents accept is an encoding: every reader takes exactly the bytes
that its writer would have written for what it returns (`Consumes`). One thing is normalised after
that. Nodes, edges, entries and members are sorted, so a document that lists them in another order is
accepted as the one that lists them in order. -/

namespace Fcfn
open Words Codec Sorted

/-- What holds of the bytes from zero to a bound holds of every byte that is not above it. -/
theorem of_byte_le {P : UInt8 → Prop} {bound b : UInt8} (hb : ¬ b > bound)
    (h : ∀ k ≤ bound.toNat, P (UInt8.ofNat k)) : P b := by
  have hle : b.toNat ≤ bound.toNat := not_lt.mp hb
  have hP := h b.toNat hle
  rwa [UInt8.ofNat_toNat] at hP

/-- A decoder whose accepted byte strings are the encodings of what they decode to exactly where they
are in order, so that no two of these decode to the same value. -/
structure CanonicalWhere {α : Type} (decode : Bytes → Result α) (encode : α → Bytes)
    (inOrder : Bytes → Prop) : Prop where
  encode_eq_iff : ∀ bytes a, decode bytes = .ok a → (encode a = bytes ↔ inOrder bytes)
  unique : ∀ bytes bytes' a, inOrder bytes → inOrder bytes' → decode bytes = .ok a →
    decode bytes' = .ok a → bytes = bytes'

/-- Byte strings that are the encoding of one value are equal. -/
theorem CanonicalWhere.of_encode_eq_iff {α : Type} {decode : Bytes → Result α} {encode : α → Bytes}
    {inOrder : Bytes → Prop}
    (h : ∀ bytes a, decode bytes = .ok a → (encode a = bytes ↔ inOrder bytes)) :
    CanonicalWhere decode encode inOrder := by
  refine ⟨h, fun bytes bytes' a horder horder' hdecode hdecode' => ?_⟩
  calc bytes = encode a := ((h bytes a hdecode).mpr horder).symm
    _ = bytes' := (h bytes' a hdecode').mpr horder'

/-! ## Evidence -/

namespace EvidenceVector

/-- An entry is read from its bytes only. -/
theorem consumes_entry : Consumes readEntry fun bs entry => bs = entry.encode := by
  refine consumes_resourceId.field fun id => consumes_u8.field fun state => consumes_u64.field
    fun generation => consumes_digest.field fun digest => consumes_refuse.skip fun _ hstate =>
    Consumes.pure ?_
  have hbyte : (EvidenceState.ofByte state).toByte = state :=
    of_byte_le (P := fun b => (EvidenceState.ofByte b).toByte = b) hstate (by decide)
  simp only [EvidenceEntry.encode, hbyte, List.append_assoc, List.append_nil]

/-- A list of entries is read from its bytes only. -/
theorem consumes_entries : Consumes readEntries fun bs entries => bs = encodeEntries entries := by
  refine consumes_count.field fun n => (Consumes.manyFields consumes_entry n).mono fun bs entries h => ?_
  obtain ⟨rfl, rfl⟩ := h
  rfl

/-- The entries are listed in the order of their resources. -/
def InOrder (bytes : Bytes) : Prop :=
  ∃ entries, Read.document readEntries bytes = .ok entries ∧
    Ascending EvidenceEntry.resource entries

/-- An accepted byte string is the encoding of its vector exactly when it is in order. -/
theorem encode_eq_iff {bytes : Bytes} {v : EvidenceVector} (h : decode bytes = .ok v) :
    v.encode = bytes ↔ InOrder bytes := by
  have hcanonical := decode_returns h
  rw [decode, bind_eq_ok] at h
  obtain ⟨entries, hread, hbuild⟩ := h
  have hbytes : bytes = encodeEntries entries := consumes_entries.runAll hread
  obtain ⟨hsorted, -⟩ := build_eq_ok hbuild
  constructor
  · intro heq
    have hread' : Read.document readEntries bytes = .ok v.entries :=
      heq ▸ (reads_entries hcanonical).runAll _
    exact ⟨v.entries, hread', v.valid.ascending⟩
  · rintro ⟨entries', hread', hasc⟩
    obtain rfl := Except.ok.inj (hread'.symm.trans hread)
    rw [encode, hsorted, sortBy_eq_self hasc, hbytes]

end EvidenceVector

/-! ## Boundaries -/

namespace ContainmentBoundary

/-- A member is read from its bytes only. -/
theorem consumes_member : Consumes readMember fun bs member => bs = member.encode := by
  refine consumes_resourceId.field fun id => consumes_u8.field fun reason => consumes_boolean.field
    fun obligation => consumes_u64.field fun weight => consumes_boolean.field fun unknown =>
    consumes_u32.field fun steps => consumes_refuse.skip fun _ hreason => consumes_refuse.skip
    fun _ _ => (Consumes.manyFields consumes_resourceId _).bind fun bs path hpath =>
    Consumes.pure ?_
  have hbyte : (InclusionReason.ofByte reason).toByte = reason :=
    of_byte_le (P := fun b => (InclusionReason.ofByte b).toByte = b) hreason (by decide)
  obtain ⟨rfl, hlength⟩ := hpath
  simp only [BoundaryMember.encode, Write.ids, hbyte, hlength, size_toNat, List.append_assoc,
    List.append_nil]

/-- A generation and its members are read from their bytes only. -/
theorem consumes_members : Consumes readMembers fun bs r => bs = encodeMembers r.1 r.2 := by
  refine consumes_u64.field fun generation => consumes_count.field fun n =>
    (Consumes.manyFields consumes_member n).bind fun bs members hmembers => Consumes.pure ?_
  obtain ⟨rfl, rfl⟩ := hmembers
  simp only [encodeMembers, List.append_assoc, List.append_nil]

/-- The members are listed in the order of their resources. -/
def InOrder (bytes : Bytes) : Prop :=
  ∃ generation members, Read.document readMembers bytes = .ok (generation, members) ∧
    Ascending BoundaryMember.resource members

/-- What an accepted byte string lists, and what its boundary holds. -/
theorem decode_spec {bytes : Bytes} {b : ContainmentBoundary} (h : decode bytes = .ok b) :
    ∃ members, Read.document readMembers bytes = .ok (b.generation, members) ∧
      bytes = encodeMembers b.generation members ∧
      b.members = sortBy BoundaryMember.resource members := by
  rw [decode, bind_eq_ok] at h
  obtain ⟨⟨generation, members⟩, hread, hcreate⟩ := h
  obtain ⟨rfl, hsorted, -⟩ := create_eq_ok hcreate
  exact ⟨members, hread, consumes_members.runAll hread, hsorted⟩

/-- An accepted byte string is the encoding of its boundary exactly when it is in order. -/
theorem encode_eq_iff {bytes : Bytes} {b : ContainmentBoundary} (h : decode bytes = .ok b) :
    b.encode = bytes ↔ InOrder bytes := by
  obtain ⟨hgeneration, hcanonical⟩ := decode_returns h
  obtain ⟨members, hread, hbytes, hsorted⟩ := decode_spec h
  constructor
  · intro heq
    have hread' : Read.document readMembers bytes = .ok (b.generation, b.members) :=
      heq ▸ (reads_members hgeneration hcanonical).runAll _
    exact ⟨b.generation, b.members, hread', (b.created hgeneration).ascending⟩
  · rintro ⟨generation, members', hread', hasc⟩
    obtain ⟨rfl, rfl⟩ := Prod.mk.inj (Except.ok.inj (hread'.symm.trans hread))
    rw [encode, hsorted, sortBy_eq_self hasc, hbytes]

/-- Sorting the members does not change the length of the encoding. -/
theorem length_encode_of_decode {bytes : Bytes} {b : ContainmentBoundary}
    (h : decode bytes = .ok b) : b.encode.length = bytes.length := by
  obtain ⟨members, -, hbytes, hsorted⟩ := decode_spec h
  have hperm : b.members.Perm members := hsorted ▸ perm_sortBy
  have hitems := (hperm.flatMap_right BoundaryMember.encode).length_eq
  simp only [hbytes, encode, encodeMembers, List.length_append, hitems, hperm.length_eq]

end ContainmentBoundary

/-! ## Topologies -/

/-- The endpoints of a described edge. -/
def EdgeSpec.key (edge : EdgeSpec) : ResourceId ×ₗ ResourceId := toLex (edge.from_, edge.to_)

namespace Topology

/-- A node is read from its bytes only. -/
theorem consumes_node : Consumes readNode fun bs node => bs = encodeNode node := by
  refine consumes_resourceId.field fun id => consumes_boolean.field fun containable =>
    consumes_u64.field fun weight => consumes_boolean.field fun obligation => consumes_u8.field
    fun completeness => consumes_refuse.skip fun _ hcompleteness => Consumes.pure ?_
  have hbyte : (AdjacencyCompleteness.ofByte completeness).toByte = completeness :=
    of_byte_le (P := fun b => (AdjacencyCompleteness.ofByte b).toByte = b) hcompleteness (by decide)
  simp only [encodeNode, hbyte, List.append_assoc, List.append_nil]

/-- The identity at an index of a node list. -/
def idAt (nodes : List NodeSpec) (i : NodeIndex) : ResourceId :=
  (nodes.getD i ⟨[], false, 0, false, .unknown⟩).id

/-- The description of an edge over a node list. -/
def describe (nodes : List NodeSpec) (e : Edge) : EdgeSpec :=
  ⟨idAt nodes e.from_, idAt nodes e.to_, e.evidence, e.generation⟩

/-- The endpoints of an edge are indices of the node list. -/
def Within (nodes : List NodeSpec) (e : Edge) : Prop :=
  e.from_ < nodes.length ∧ e.to_ < nodes.length

/-- An edge is read from its bytes only, as its description. -/
theorem consumes_edge (nodes : List NodeSpec) :
    Consumes (readEdge nodes) fun bs edge =>
      ∃ e, Within nodes e ∧ bs = encodeEdge e ∧ edge = describe nodes e := by
  refine consumes_u32.field fun f => consumes_u32.field fun t => consumes_u8.field fun evidence =>
    consumes_u64.field fun generation => consumes_refuse.skip fun _ hrange => consumes_refuse.skip
    fun _ hevidence => Consumes.pure ?_
  have hbyte : (EdgeEvidence.ofByte evidence).toByte = evidence :=
    of_byte_le (P := fun b => (EdgeEvidence.ofByte b).toByte = b) hevidence (by decide)
  rw [not_or, not_le, not_le] at hrange
  refine ⟨⟨f.toNat, t.toNat, .ofByte evidence, generation⟩, hrange, ?_, rfl⟩
  simp only [encodeEdge, hbyte, size_toNat, List.append_assoc, List.append_nil]

/-- A definition is read from its bytes only: its edges are described over its nodes. -/
theorem consumes_spec : Consumes readSpec fun bs spec =>
    ∃ edges : List Edge, (∀ e ∈ edges, Within spec.nodes e) ∧
      spec.edges = edges.map (describe spec.nodes) ∧
      bs = Write.u64 spec.generation ++ Write.size spec.nodes.length ++
        spec.nodes.flatMap encodeNode ++ Write.size edges.length ++ edges.flatMap encodeEdge := by
  refine consumes_u64.field fun generation => consumes_count.field fun n =>
    (Consumes.manyFields consumes_node n).bind fun bs nodes hnodes => consumes_count.field fun m =>
    (Consumes.many (consumes_edge nodes) m).bind fun bs' specs hspecs => Consumes.pure ?_
  obtain ⟨rfl, rfl⟩ := hnodes
  obtain ⟨edges, hwithin, rfl, rfl, rfl⟩ := hspecs
  refine ⟨edges, hwithin, rfl, ?_⟩
  simp only [List.append_assoc, List.append_nil]

/-- The nodes are listed in the order of their identities, and the edges in that of their
endpoints. -/
def InOrder (bytes : Bytes) : Prop :=
  ∃ spec, Read.document readSpec bytes = .ok spec ∧ Ascending NodeSpec.id spec.nodes ∧
    Ascending EdgeSpec.key spec.edges

/-- The identities ascend with the indices. -/
theorem strictMonoOn_idAt {nodes : List NodeSpec} (h : Ascending NodeSpec.id nodes) :
    StrictMonoOn (idAt nodes) (Set.Iio nodes.length) := by
  intro i hi j hj hij
  have hi' : i < nodes.length := hi
  have hj' : j < nodes.length := hj
  have hlt := List.pairwise_iff_getElem.mp h i j (by simpa) (by simpa) hij
  simpa [idAt, hi', hj'] using hlt

/-- Over ascending identities, edges ascend exactly when their descriptions do. -/
theorem ascending_describe {nodes : List NodeSpec} (h : Ascending NodeSpec.id nodes)
    {edges : List Edge} (hedges : ∀ e ∈ edges, Within nodes e) :
    Ascending EdgeSpec.key (edges.map (describe nodes)) ↔ Ascending Edge.key edges := by
  have hmono := strictMonoOn_idAt h
  have hkey : ∀ e ∈ edges, ∀ e' ∈ edges,
      ((describe nodes e).key < (describe nodes e').key ↔ e.key < e'.key) := by
    intro e he e' he'
    obtain ⟨hf, ht⟩ := hedges e he
    obtain ⟨hf', ht'⟩ := hedges e' he'
    simp only [EdgeSpec.key, Edge.key, describe, Prod.Lex.toLex_lt_toLex]
    rw [hmono.lt_iff_lt hf hf', hmono.lt_iff_lt ht ht', hmono.injOn.eq_iff hf hf']
  simp only [Ascending, List.pairwise_map]
  exact List.Pairwise.iff_of_mem fun he he' => hkey _ he _ he'

/-- Over ascending identities, a described edge resolves to itself. -/
theorem eq_of_resolveEdge {nodes : List NodeSpec} (h : Ascending NodeSpec.id nodes) {e e' : Edge}
    (he : Within nodes e) (hresolve : resolveEdge nodes (describe nodes e) = .ok e') :
    e' = e := by
  obtain ⟨-, hfrom, hto, hevidence, hgeneration⟩ := resolveEdge_spec hresolve
  have hfind : ∀ i < nodes.length, findNode nodes (idAt nodes i) = some i := by
    intro i hi
    have hid : idAt nodes i = nodes[i].id := by simp [idAt, hi]
    rw [hid]
    exact findNode_getElem h hi
  have hf := Option.some.inj (hfrom.symm.trans (hfind e.from_ he.1))
  have ht := Option.some.inj (hto.symm.trans (hfind e.to_ he.2))
  cases e
  cases e'
  simp_all [describe]

/-- Over ascending identities, described edges resolve to themselves. -/
theorem eq_of_mapM_resolveEdge {nodes : List NodeSpec} (h : Ascending NodeSpec.id nodes)
    {edges edges' : List Edge} (hedges : ∀ e ∈ edges, Within nodes e)
    (hresolve : (edges.map (describe nodes)).mapM (resolveEdge nodes) = .ok edges') :
    edges' = edges := by
  induction edges generalizing edges' with
  | nil =>
    rw [List.map_nil, List.mapM_nil, pure_eq_ok] at hresolve
    exact hresolve.symm
  | cons e edges ih =>
    simp only [List.map_cons, List.mapM_cons, bind_eq_ok, pure_eq_ok] at hresolve
    obtain ⟨e', he', rest, hrest, rfl⟩ := hresolve
    rw [eq_of_resolveEdge h (hedges e (by simp)) he',
      ih (fun e he => hedges e (List.mem_cons_of_mem _ he)) hrest]

/-- An accepted byte string is the encoding of its definition exactly when it is in order. -/
theorem encode_eq_iff {bytes : Bytes} {t : Topology} (h : decode bytes = .ok t) :
    t.encode = bytes ↔ InOrder bytes := by
  rw [decode, bind_eq_ok] at h
  obtain ⟨spec, hread, hbuild⟩ := h
  obtain ⟨edges, hwithin, hspec, hbytes⟩ := consumes_spec.runAll hread
  constructor
  · intro heq
    have hread' : Read.document readSpec bytes = .ok t.toSpec := heq ▸ t.reads_spec.runAll _
    have hvalid := t.valid
    refine ⟨t.toSpec, hread', hvalid.nodes_ascending, ?_⟩
    exact (ascending_describe hvalid.nodes_ascending fun e he =>
      ⟨(hvalid.edges_valid e he).from_lt, (hvalid.edges_valid e he).to_lt⟩).mpr
        hvalid.edges_ascending
  · rintro ⟨spec', hread', hnodes, hedges⟩
    obtain rfl := Except.ok.inj (hread'.symm.trans hread)
    rw [hspec, ascending_describe hnodes hwithin] at hedges
    simp only [build_eq_ok, TopologyDef.build, require_bind_eq_ok] at hbuild
    obtain ⟨-, -, -, -, hbuild⟩ := hbuild
    simp only [bind_eq_ok, pure_eq_ok] at hbuild
    obtain ⟨_, -, resolved, hresolved, _, -, hdef⟩ := hbuild
    rw [sortBy_eq_self hnodes, hspec] at hresolved
    obtain rfl := eq_of_mapM_resolveEdge hnodes hwithin hresolved
    rw [sortBy_eq_self hnodes, sortBy_eq_self hedges] at hdef
    rw [encode, ← hdef, hbytes]

end Topology

/-! ## Plans -/

/-- A vector is read from its bytes only. -/
theorem consumes_authority : Consumes AuthorityVector.read fun bs v => bs = v.encode := by
  refine consumes_u64.field fun epoch => consumes_u64.field fun boot => consumes_u32.field
    fun process => consumes_u64.field fun policy => consumes_u64.field fun topology =>
    consumes_u64.field fun revision => consumes_digest.field fun digest => consumes_u64.field
    fun sequence => Consumes.pure ?_
  simp only [AuthorityVector.encode, List.append_assoc, List.append_nil]

namespace Explanation

/-- A subject is read from its bytes only. -/
theorem consumes_subject (has_subject : Bool) :
    Consumes (readSubject has_subject) fun bs subject => has_subject = subject.isSome ∧
      bs = (subject.map Write.resourceId).getD [] := by
  cases has_subject with
  | false => exact Consumes.pure ⟨rfl, rfl⟩
  | true => exact consumes_resourceId.field fun id => Consumes.pure ⟨rfl, List.append_nil _⟩

/-- A reason code that is checked is the one that was read. -/
theorem consumes_code (code : UInt16) :
    Consumes (checkCode code) fun bs checked => bs = [] ∧ checked.value = code := by
  rw [checkCode]
  split
  · exact Consumes.pure ⟨rfl, rfl⟩
  · exact Consumes.throw

/-- An item is read from its bytes only, and its text is within the bound. -/
theorem consumes_item : Consumes readItem fun bs item =>
    ∃ form : ExplanationItem, form.text.length ≤ kMaxExplanationTextLength ∧
      bs = encodeItem form ∧ item = id form := by
  refine consumes_u16.field fun code => consumes_boolean.field fun has_subject =>
    (consumes_subject has_subject).bind fun bs subject hsubject => consumes_u64.field fun value =>
    consumes_boolean.field fun has_value => consumes_blob.bind fun bs' text htext =>
    (consumes_code code).skip fun checked hcode => Consumes.pure ?_
  obtain ⟨rfl, rfl⟩ := hsubject
  obtain ⟨rfl, hlength⟩ := htext
  obtain rfl := hcode
  refine ⟨_, hlength, ?_, rfl⟩
  cases subject <;> simp [encodeItem]

/-- An explanation is read from its bytes only. -/
theorem consumes_explanation {message : String} :
    Consumes (readWithin message) fun bs x => bs = x.encode := by
  refine (consumes_count.and_returns returns_count).bind fun bs n hn =>
    (Consumes.many consumes_item n).bind fun bs' items hitems => consumes_boolean.field
    fun truncated => Consumes.pure ?_
  obtain ⟨rfl, hle⟩ := hn
  obtain ⟨forms, htext, rfl, rfl, rfl⟩ := hitems
  rw [List.map_id]
  have hlen : empty.items.length + forms.length ≤ kMaxExplanationItems := by
    rw [show empty.items = [] from rfl, List.length_nil, Nat.zero_add]
    exact hle
  obtain ⟨hadded, hflag⟩ := foldl_addItem forms empty hlen htext
  have hempty : empty.items ++ forms = forms := List.nil_append forms
  rw [hempty] at hadded
  cases truncated with
  | false =>
    simp only [Bool.false_eq_true, if_false, encode, hadded, hflag, List.append_assoc,
      List.append_nil]
    rfl
  | true => simp [encode, markTruncated, hadded]

end Explanation

namespace ContainmentPlan

/-- A list of identities is read from its bytes only. -/
theorem consumes_ids {max_entries : ℕ} :
    Consumes (readIds max_entries) fun bs ids => bs = Write.ids ids := by
  refine consumes_count.field fun n =>
    (Consumes.manyFields consumes_resourceId n).mono fun bs ids h => ?_
  obtain ⟨rfl, rfl⟩ := h
  rfl

/-- The search accounting is read from its bytes only. -/
theorem consumes_counters : Consumes readCounters fun bs counters => bs = encodeCounters counters := by
  refine consumes_u64.field fun candidates => consumes_u64.field fun explored =>
    consumes_u64.field fun pruned => consumes_u64.field fun checked => consumes_u64.field
    fun budget => consumes_boolean.field fun exhausted => consumes_boolean.field fun heuristic =>
    Consumes.pure ?_
  simp only [encodeCounters, List.append_assoc, List.append_nil]

/-- The bytes that follow the boundary in the encoding of a plan. -/
def encodeRest (plan : ContainmentPlan) : Bytes :=
  encodeClaims plan ++ Write.blob plan.authority.encode ++ encodeDigests plan ++ encodeLists plan ++
    Write.u64 plan.total_weight ++ Write.u64 plan.member_count ++ encodeCounters plan.counters ++
    Write.boolean plan.infeasibility.present ++ Write.ids plan.infeasibility.path ++
    plan.explanation.encode ++ Write.digest plan.digest

/-- The parts of the encoding of a plan. -/
theorem encode_eq_rest (plan : ContainmentPlan) :
    plan.encode = Write.u64 plan.generation ++ Write.blob plan.boundary.encode ++
      plan.encodeRest := by
  simp only [encode, encodeRest, List.append_assoc]

/-- The bytes of an enumeration that pass the check are those of their names. -/
theorem toByte_ofByte {claim feasibility optimality currency : UInt8}
    (h : ¬ (claim > 5 ∨ feasibility > 2 ∨ optimality > 3 ∨ currency > 3)) :
    (ContainmentClaim.ofByte claim).toByte = claim ∧
      (FeasibilityStatus.ofByte feasibility).toByte = feasibility ∧
      (OptimalityStatus.ofByte optimality).toByte = optimality ∧
      (EvidenceCurrency.ofByte currency).toByte = currency := by
  simp only [not_or] at h
  obtain ⟨hclaim, hfeasibility, hoptimality, hcurrency⟩ := h
  refine ⟨?_, ?_, ?_, ?_⟩
  · exact of_byte_le (P := fun b => (ContainmentClaim.ofByte b).toByte = b) hclaim (by decide)
  · exact of_byte_le (P := fun b => (FeasibilityStatus.ofByte b).toByte = b) hfeasibility
      (by decide)
  · exact of_byte_le (P := fun b => (OptimalityStatus.ofByte b).toByte = b) hoptimality (by decide)
  · exact of_byte_le (P := fun b => (EvidenceCurrency.ofByte b).toByte = b) hcurrency (by decide)

/-- A plan is read from its bytes only, up to those of its boundary. -/
theorem consumes_plan : Consumes read fun bs plan => ∃ boundary_bytes : Bytes,
    bs = Write.u64 plan.generation ++ Write.blob boundary_bytes ++ plan.encodeRest ∧
      boundary_bytes.length ≤ kMaxRecordPayloadBytes ∧
      ContainmentBoundary.decode boundary_bytes = .ok plan.boundary := by
  refine consumes_u64.field fun generation => consumes_blob.bind fun bs boundary_bytes hboundary =>
    consumes_u8.field fun claim => consumes_u8.field fun feasibility => consumes_u8.field
    fun optimality => consumes_u8.field fun currency => consumes_blob.bind fun bs' authority_bytes
    hauthority => consumes_digest.field fun topology => consumes_digest.field fun policy =>
    consumes_digest.field fun evidence => consumes_digest.field fun inst => consumes_refuse.skip
    fun _ hrange => consumes_liftM.skip fun boundary hdecode => consumes_liftM.skip
    fun authority hvector => ?_
  refine consumes_ids.field fun sources => consumes_ids.field fun obligations => consumes_ids.field
    fun uncontainable => consumes_ids.field fun necessary => consumes_ids.field fun indeterminate =>
    consumes_u64.field fun weight => consumes_u64.field fun members => consumes_counters.field
    fun counters => consumes_boolean.field fun present => consumes_ids.field fun path =>
    Explanation.consumes_explanation.field fun explanation => consumes_digest.field fun digest =>
    Consumes.pure ?_
  obtain ⟨rfl, hlength⟩ := hboundary
  obtain ⟨rfl, -⟩ := hauthority
  obtain ⟨hclaim, hfeasibility, hoptimality, hcurrency⟩ := toByte_ofByte hrange
  have hvector' : authority_bytes = authority.encode := consumes_authority.runAll hvector
  refine ⟨boundary_bytes, ?_, hlength, hdecode⟩
  simp only [encodeRest, encodeClaims, encodeDigests, encodeLists, hclaim, hfeasibility,
    hoptimality, hcurrency, hvector', List.append_assoc, List.append_nil]

/-- Read the bytes of the boundary of a plan. -/
def readBoundaryBytes : Read Bytes := do
  let _ ← Read.u64
  Read.blob kMaxRecordPayloadBytes

/-- The boundary of the plan is in order: nothing else in the bytes of a plan is ever rearranged. -/
def InOrder (bytes : Bytes) : Prop :=
  ∃ boundary_bytes rest, readBoundaryBytes.run bytes = .ok (boundary_bytes, rest) ∧
    ContainmentBoundary.InOrder boundary_bytes

/-- An accepted byte string is the encoding of its plan exactly when it is in order. -/
theorem encode_eq_iff {bytes : Bytes} {plan : ContainmentPlan} (h : decode bytes = .ok plan) :
    plan.encode = bytes ↔ InOrder bytes := by
  rw [decode, bind_eq_ok] at h
  obtain ⟨plan', hread, hcheck⟩ := h
  rw [require_bind_eq_ok, pure_eq_ok] at hcheck
  obtain ⟨-, rfl⟩ := hcheck
  obtain ⟨boundary_bytes, rfl, hlength, hboundary⟩ := consumes_plan.runAll hread
  have hreads : Reads readBoundaryBytes
      (Write.u64 plan'.generation ++ Write.blob boundary_bytes) boundary_bytes :=
    (reads_u64 _).bind (reads_blob hlength (by decide))
  have hsame : plan'.boundary.encode.length = boundary_bytes.length :=
    ContainmentBoundary.length_encode_of_decode hboundary
  calc plan'.encode = _ ↔ plan'.boundary.encode = boundary_bytes := by
        rw [encode_eq_rest, List.append_left_inj, List.append_right_inj, Write.blob, Write.blob,
          hsame, List.append_right_inj]
    _ ↔ ContainmentBoundary.InOrder boundary_bytes := ContainmentBoundary.encode_eq_iff hboundary
    _ ↔ InOrder _ := by
        rw [InOrder, hreads]
        constructor
        · exact fun horder => ⟨boundary_bytes, _, rfl, horder⟩
        · rintro ⟨bs, rest, hrun, horder⟩
          obtain ⟨rfl, -⟩ := Prod.mk.inj (Except.ok.inj hrun)
          exact horder

end ContainmentPlan

/-! ## Accepted encodings -/

/-- The four documents are decoded from their encodings only, where these are in order. -/
theorem accepted_canonical :
    CanonicalWhere Topology.decode Topology.encode Topology.InOrder ∧
      CanonicalWhere EvidenceVector.decode EvidenceVector.encode EvidenceVector.InOrder ∧
      CanonicalWhere ContainmentBoundary.decode ContainmentBoundary.encode
        ContainmentBoundary.InOrder ∧
      CanonicalWhere ContainmentPlan.decode ContainmentPlan.encode ContainmentPlan.InOrder :=
  ⟨.of_encode_eq_iff fun _ _ => Topology.encode_eq_iff,
    .of_encode_eq_iff fun _ _ => EvidenceVector.encode_eq_iff,
    .of_encode_eq_iff fun _ _ => ContainmentBoundary.encode_eq_iff,
    .of_encode_eq_iff fun _ _ => ContainmentPlan.encode_eq_iff⟩

/-- Two entries, the later resource first. -/
def reversedEntries : List EvidenceEntry :=
  [⟨bytesOf "b", .present, 1, Digest.zero⟩, ⟨bytesOf "a", .present, 1, Digest.zero⟩]

/-- Entries out of order are accepted, as the same vector as their other order. -/
theorem reordered_accepted :
    ¬ ∀ bytes v, EvidenceVector.decode bytes = .ok v → v.encode = bytes := by
  intro h
  have hdecode : ((EvidenceVector.decode (encodeEntries reversedEntries)).toOption.map
      EvidenceVector.encode) = some (encodeEntries reversedEntries.reverse) := by
    decide +kernel
  obtain ⟨v, hv, hencode⟩ := Option.map_eq_some_iff.mp hdecode
  have heq := (h _ v (mem_toOption.mp hv)).symm.trans hencode
  exact absurd heq (by decide +kernel)

end Fcfn
