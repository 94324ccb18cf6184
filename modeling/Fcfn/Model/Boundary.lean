import Fcfn.Core.Canonical
import Fcfn.Lib.Sorted

/-!
# Containment boundary

A boundary is either the unset one a plan starts with, of generation zero, or one that
`ContainmentBoundary.create` has accepted: members in the order of their identities, each once.
The encoding of an unset boundary is refused by `decode`, which goes through `create`; that of a
created one is read back when its identities are in canonical form (`decode_encode`). -/

namespace Fcfn

open Words Codec Sorted

/-- Why a resource is inside the containment boundary. -/
inductive InclusionReason
  | failureSource | cutVertexOnProvenPath | cutVertexOnUnknownPath | policyMandatedSource
  | protectedObligationIsolation | sharedRiskDomainFence
  deriving DecidableEq, Repr

/-- The byte of an inclusion reason. -/
def InclusionReason.toByte : InclusionReason → UInt8
  | .failureSource => 0
  | .cutVertexOnProvenPath => 1
  | .cutVertexOnUnknownPath => 2
  | .policyMandatedSource => 3
  | .protectedObligationIsolation => 4
  | .sharedRiskDomainFence => 5

/-- The inclusion reason of a byte. -/
def InclusionReason.ofByte (b : UInt8) : InclusionReason :=
  if b = 0 then .failureSource else if b = 1 then .cutVertexOnProvenPath
  else if b = 2 then .cutVertexOnUnknownPath else if b = 3 then .policyMandatedSource
  else if b = 4 then .protectedObligationIsolation else .sharedRiskDomainFence

/-- One member of a containment boundary. -/
structure BoundaryMember where
  resource : ResourceId
  reason : InclusionReason
  protected_obligation : Bool := false
  weight : UInt64
  witness_path : List ResourceId := []
  witness_uses_unknown : Bool := false
  deriving DecidableEq, Repr

/-- The bytes of one member. -/
def BoundaryMember.encode (member : BoundaryMember) : Bytes :=
  Write.resourceId member.resource ++ Write.u8 member.reason.toByte ++
    Write.boolean member.protected_obligation ++ Write.u64 member.weight ++
    Write.boolean member.witness_uses_unknown ++ Write.ids member.witness_path

/-- The bytes of a generation and its members. -/
def encodeMembers (generation : BoundaryGeneration) (members : List BoundaryMember) : Bytes :=
  Write.u64 generation ++ Write.size members.length ++ members.flatMap BoundaryMember.encode

/-- The sum of the members' weights, modulo the word size. -/
def sumWeights (members : List BoundaryMember) : UInt64 :=
  members.foldl (fun total member => total + member.weight) 0

/-- The digest a created boundary stores. -/
def boundaryDigest (generation : BoundaryGeneration) (members : List BoundaryMember) : Digest :=
  digestOf (encodeMembers generation members ++ Write.u64 (sumWeights members))

/-- What a member of a created boundary satisfies. -/
structure BoundaryMember.Valid (member : BoundaryMember) : Prop where
  resource_ne_nil : member.resource ≠ []
  weight_le : member.weight.toNat ≤ kMaxNodeWeight
  witness_le : member.witness_path.length ≤ kMaxCutCertificatePathNodes

/-- The rules of a created boundary. -/
structure BoundaryCreated (generation : BoundaryGeneration) (members : List BoundaryMember)
    (digest : Digest) : Prop where
  generation_ne_zero : generation ≠ 0
  length_le : members.length ≤ kMaxBoundaryMembers
  members_valid : ∀ member ∈ members, member.Valid
  ascending : Ascending BoundaryMember.resource members
  digest_eq : digest = boundaryDigest generation members

/-- Canonically ordered containment boundary. -/
structure ContainmentBoundary where
  generation : BoundaryGeneration
  members : List BoundaryMember
  digest : Digest
  valid : (generation = 0 ∧ members = [] ∧ digest = Digest.zero) ∨
    BoundaryCreated generation members digest

/-- Boundaries with equal content are equal. -/
theorem ContainmentBoundary.ext' {b b' : ContainmentBoundary} (hg : b.generation = b'.generation)
    (hm : b.members = b'.members) (hd : b.digest = b'.digest) : b = b' := by
  cases b; cases b'; simp_all

instance : DecidableEq ContainmentBoundary := fun b b' =>
  decidable_of_iff (b.generation = b'.generation ∧ b.members = b'.members ∧ b.digest = b'.digest)
    ⟨fun h => ContainmentBoundary.ext' h.1 h.2.1 h.2.2, fun h => h ▸ ⟨rfl, rfl, rfl⟩⟩

namespace ContainmentBoundary

/-- The boundary before one is created. -/
def unset : ContainmentBoundary := ⟨0, [], Digest.zero, Or.inl ⟨rfl, rfl, rfl⟩⟩

/-- A boundary of a non-zero generation has been created. -/
theorem created (b : ContainmentBoundary) (h : b.generation ≠ 0) :
    BoundaryCreated b.generation b.members b.digest :=
  b.valid.resolve_left fun hunset => h hunset.1

/-- The only boundary of generation zero is the unset one. -/
theorem eq_unset (b : ContainmentBoundary) (h : b.generation = 0) : b = unset := by
  rcases b.valid with ⟨hg, hm, hd⟩ | hcreated
  · exact ext' hg hm hd
  · exact absurd h hcreated.generation_ne_zero

/-- The checks on the sorted members, in order; `previous` is the resource of the member before. -/
def checkMembers : Option ResourceId → List BoundaryMember → Result Unit
  | _, [] => .ok ()
  | previous, member :: rest => do
    require (member.resource != []) .invalidArgument "boundary member has empty resource id"
    require (member.weight.toNat ≤ kMaxNodeWeight) .invalidArgument
      "boundary member weight out of range"
    require (member.witness_path.length ≤ kMaxCutCertificatePathNodes) .limitExceeded
      "witness path exceeds bound"
    require (previous != some member.resource) .alreadyExists "duplicate boundary member"
    checkMembers (some member.resource) rest

/-- The members of a boundary to be created, sorted and checked. -/
def arrange (generation : BoundaryGeneration) (members : List BoundaryMember) :
    Result (List BoundaryMember) := do
  require (generation != 0) .invalidArgument "boundary generation must be non-zero"
  require (members.length ≤ kMaxBoundaryMembers) .limitExceeded
    "boundary member count exceeds bound"
  let members := sortBy BoundaryMember.resource members
  checkMembers none members
  return members

/-- Members that pass their checks are valid, and no two neighbours share a resource. -/
theorem checkMembers_spec {previous : Option ResourceId} {members : List BoundaryMember} {u : Unit}
    (h : checkMembers previous members = .ok u) :
    (∀ member ∈ members, member.Valid) ∧
      (∀ member, members.head? = some member → previous ≠ some member.resource) ∧
      members.IsChain (fun a b => a.resource ≠ b.resource) := by
  induction members generalizing previous with
  | nil => simp
  | cons member rest ih =>
    simp only [checkMembers, require_bind_eq_ok, bne_iff_ne, decide_eq_true_eq] at h
    obtain ⟨hid, hweight, hpath, hprev, hrest⟩ := h
    obtain ⟨hvalid, hhead, hchain⟩ := ih hrest
    refine ⟨fun x hx => ?_, fun x hx => ?_, ?_⟩
    · rcases List.mem_cons.mp hx with rfl | hx
      · exact ⟨hid, hweight, hpath⟩
      · exact hvalid x hx
    · simp only [List.head?_cons, Option.some.injEq] at hx
      exact hx ▸ hprev
    · rw [List.isChain_cons]
      exact ⟨fun y hy heq => hhead y hy (by rw [heq]), hchain⟩

/-- What is arranged is the sorted list of members. -/
theorem arrange_eq_ok {generation : BoundaryGeneration} {members members' : List BoundaryMember}
    (h : arrange generation members = .ok members') :
    members' = sortBy BoundaryMember.resource members ∧
      BoundaryCreated generation members' (boundaryDigest generation members') := by
  simp only [arrange, require_bind_eq_ok, bne_iff_ne, decide_eq_true_eq] at h
  obtain ⟨hgen, hlen, h⟩ := h
  simp only [bind_eq_ok, pure_eq_ok] at h
  obtain ⟨_, hcheck, rfl⟩ := h
  obtain ⟨hvalid, -, hchain⟩ := checkMembers_spec hcheck
  exact ⟨rfl, hgen, by simpa using hlen, hvalid, ascending_of_isChain pairwise_sortBy hchain, rfl⟩

/-- Members that ascend and are valid pass their checks. -/
theorem checkMembers_eq_ok {previous : Option ResourceId} {members : List BoundaryMember}
    (hvalid : ∀ member ∈ members, member.Valid)
    (hprev : ∀ member ∈ members, previous ≠ some member.resource)
    (hasc : Ascending BoundaryMember.resource members) :
    checkMembers previous members = .ok () := by
  induction members generalizing previous with
  | nil => rfl
  | cons member rest ih =>
    have hv := hvalid member (by simp)
    rw [Ascending, List.map_cons, List.pairwise_cons] at hasc
    simp only [checkMembers, require_bind_eq_ok, bne_iff_ne, decide_eq_true_eq]
    refine ⟨hv.resource_ne_nil, hv.weight_le, hv.witness_le, hprev member (by simp), ?_⟩
    refine ih (fun x hx => hvalid x (List.mem_cons_of_mem _ hx)) (fun x hx heq => ?_) hasc.2
    have hlt := hasc.1 x.resource (List.mem_map_of_mem hx)
    rw [Option.some.injEq] at heq
    exact absurd hlt (heq ▸ lt_irrefl _)

/-- Create a boundary: sorts the members, refuses duplicates and what is out of bounds. -/
def create (generation : BoundaryGeneration) (members : List BoundaryMember) :
    Result ContainmentBoundary :=
  match h : arrange generation members with
  | .error e => .error e
  | .ok members' =>
    .ok ⟨generation, members', boundaryDigest generation members', Or.inr (arrange_eq_ok h).2⟩

/-- The content of a boundary that is created. -/
theorem create_eq_ok {generation : BoundaryGeneration} {members : List BoundaryMember}
    {b : ContainmentBoundary} (h : create generation members = .ok b) :
    b.generation = generation ∧ b.members = sortBy BoundaryMember.resource members ∧
      BoundaryCreated b.generation b.members b.digest := by
  rw [create] at h
  split at h
  · exact absurd h (by simp)
  · rename_i members' harr
    obtain rfl := Except.ok.inj h
    obtain ⟨hsort, hcreated⟩ := arrange_eq_ok harr
    exact ⟨rfl, hsort, hcreated⟩

/-- Creating a boundary from the content of a created one gives it back. -/
theorem create_self {b : ContainmentBoundary} (h : b.generation ≠ 0) :
    create b.generation b.members = .ok b := by
  have hc := b.created h
  have harr : arrange b.generation b.members = .ok b.members := by
    simp only [arrange, require_bind_eq_ok, bne_iff_ne, decide_eq_true_eq]
    refine ⟨h, hc.length_le, ?_⟩
    rw [sortBy_eq_self hc.ascending, checkMembers_eq_ok hc.members_valid (by simp) hc.ascending]
    rfl
  rw [create]
  split
  · rename_i e he
    rw [harr] at he
    exact absurd he (by simp)
  · rename_i members' hm
    rw [harr] at hm
    obtain rfl := Except.ok.inj hm
    rw [Except.ok.injEq]
    exact ext' rfl rfl hc.digest_eq.symm

/-- Whether a resource is a member. -/
def contains (b : ContainmentBoundary) (resource : ResourceId) : Bool :=
  b.members.any (fun member => member.resource == resource)

/-- The sum of the members' weights. -/
def totalWeight (b : ContainmentBoundary) : UInt64 := sumWeights b.members

/-- Whether every member is a member of the other. -/
def isSubsetOf (b other : ContainmentBoundary) : Bool :=
  b.members.all (fun member => other.contains member.resource)

/-- Whether every member of the other is a member. -/
def isSupersetOf (b other : ContainmentBoundary) : Bool := other.isSubsetOf b

/-- Whether the members are the same. -/
def sameMembers (b other : ContainmentBoundary) : Bool :=
  b.members.map BoundaryMember.resource == other.members.map BoundaryMember.resource

/-- Canonical byte encoding. -/
def encode (b : ContainmentBoundary) : Bytes := encodeMembers b.generation b.members

/-- Read one member. -/
def readMember : Read BoundaryMember := do
  let resource ← Read.resourceId
  let reason ← Read.u8
  let protected_obligation ← Read.boolean
  let weight ← Read.u64
  let witness_uses_unknown ← Read.boolean
  let steps ← Read.u32
  Read.refuse (reason > 5) .invalidArgument "invalid inclusion reason value"
  Read.refuse (steps.toNat > kMaxCutCertificatePathNodes) .limitExceeded
    "encoded witness path exceeds bound"
  let witness_path ← many Read.resourceId steps.toNat
  return ⟨resource, .ofByte reason, protected_obligation, weight, witness_path,
    witness_uses_unknown⟩

/-- Read a generation and its members. -/
def readMembers : Read (BoundaryGeneration × List BoundaryMember) := do
  let generation ← Read.u64
  let count ← Read.count kMaxBoundaryMembers "encoded boundary member count exceeds bound"
  let members ← many readMember count
  return (generation, members)

/-- Decode a canonical encoding and create the boundary it describes. -/
def decode (bytes : Bytes) : Result ContainmentBoundary := do
  let (generation, members) ← Read.document readMembers bytes
  create generation members

/-- The identities of a member are in canonical form. -/
def Canonical (member : BoundaryMember) : Prop :=
  isValidResourceId member.resource = true ∧
    ∀ step ∈ member.witness_path, isValidResourceId step = true

/-- A member is read back from its bytes. -/
theorem reads_member {member : BoundaryMember} (hv : member.Valid) (hc : Canonical member) :
    Reads readMember member.encode member := by
  have hle := hv.witness_le
  have hsize : (UInt32.ofNat member.witness_path.length).toNat = member.witness_path.length :=
    toNat_size (by simp only [kMaxCutCertificatePathNodes] at hle; omega)
  have hreason : ¬ member.reason.toByte > 5 ∧
      InclusionReason.ofByte member.reason.toByte = member.reason := by
    cases member.reason <;> decide
  simp only [BoundaryMember.encode, Write.ids, List.append_assoc]
  refine (reads_resourceId hc.1).bind ((reads_u8 _).bind ((reads_boolean _).bind
    ((reads_u64 _).bind ((reads_boolean _).bind ((reads_u32 _).bind ?_)))))
  refine Reads.skip (reads_refuse hreason.1) (Reads.skip (reads_refuse (by rw [hsize]; omega)) ?_)
  rw [hsize, hreason.2]
  exact (Reads.many _ fun step hstep => reads_resourceId (hc.2 step hstep)).bind_pure
    (Reads.pure _)

/-- The content of a created boundary with canonical identities is read back. -/
theorem reads_members {b : ContainmentBoundary} (h : b.generation ≠ 0)
    (hc : ∀ member ∈ b.members, Canonical member) :
    Reads readMembers b.encode (b.generation, b.members) := by
  have hcreated := b.created h
  simp only [encode, encodeMembers, List.append_assoc]
  refine (reads_u64 _).bind ((reads_count hcreated.length_le (by decide)).bind ?_)
  exact (Reads.many _ fun m hm => reads_member (hcreated.members_valid m hm) (hc m hm)).bind_pure
    (Reads.pure _)

/-- A created boundary with canonical identities is decoded from its encoding. -/
theorem decode_encode {b : ContainmentBoundary} (h : b.generation ≠ 0)
    (hc : ∀ member ∈ b.members, Canonical member) : decode b.encode = .ok b := by
  simp only [decode, Read.document, (reads_members h hc).runAll, bind, Except.bind]
  exact create_self h

/-- What is decoded has been created and has canonical identities. -/
theorem decode_returns {bytes : Bytes} {b : ContainmentBoundary} (h : decode bytes = .ok b) :
    b.generation ≠ 0 ∧ ∀ member ∈ b.members, Canonical member := by
  rw [decode, bind_eq_ok] at h
  obtain ⟨⟨generation, members⟩, hread, h⟩ := h
  have hmember : Returns readMember Canonical := by
    refine returns_resourceId.bind fun _ hid => Returns.after fun _ => Returns.after fun _ =>
      Returns.after fun _ => Returns.after fun _ => Returns.after fun _ => Returns.after fun _ =>
      Returns.after fun _ => (Returns.many returns_resourceId _).bind fun _ hsteps =>
      Returns.pure ⟨hid, hsteps.2⟩
  have hmembers : Returns readMembers fun r => ∀ member ∈ r.2, Canonical member :=
    Returns.after fun _ => Returns.after fun _ => (Returns.many hmember _).bind fun _ hm =>
      Returns.pure hm.2
  obtain ⟨hgen, hsort, hcreated⟩ := create_eq_ok h
  refine ⟨hcreated.generation_ne_zero, fun member hm => ?_⟩
  rw [hsort] at hm
  exact hmembers.runAll hread member (mem_sortBy.mp hm)

/-- A member is recovered. -/
theorem recovers_member (member : BoundaryMember) : Recovers readMember member.encode member := by
  refine Recovers.of_length fun hlen => ?_
  have hsize : (UInt32.ofNat member.witness_path.length).toNat = member.witness_path.length := by
    have hle : member.witness_path.length ≤ (member.witness_path.flatMap Write.resourceId).length :=
      length_le_flatMap _ fun step _ => blob_ne_nil step
    refine toNat_size ?_
    simp only [BoundaryMember.encode, Write.ids, List.length_append] at hlen
    omega
  have hreason : InclusionReason.ofByte member.reason.toByte = member.reason := by
    cases member.reason <;> rfl
  simp only [BoundaryMember.encode, Write.ids, List.append_assoc]
  refine (recovers_resourceId _).bind ((reads_u8 _).recovers.bind ((reads_boolean _).recovers.bind
    ((reads_u64 _).recovers.bind ((reads_boolean _).recovers.bind ((reads_u32 _).recovers.bind ?_)))))
  refine Recovers.skip recovers_refuse (Recovers.skip recovers_refuse ?_)
  rw [hsize, hreason]
  exact (Recovers.many _ fun step _ => recovers_resourceId step).bind_pure (Recovers.pure _)

/-- The encoding of a boundary is decoded as that boundary, or refused. -/
theorem decode_recovers {b b' : ContainmentBoundary} (hlen : b.encode.length < 2 ^ 32)
    (h : decode b.encode = .ok b') : b' = b := by
  rw [decode, bind_eq_ok] at h
  obtain ⟨⟨generation, members⟩, hread, h⟩ := h
  have hrecovers : Recovers readMembers b.encode (b.generation, b.members) := by
    simp only [encode, encodeMembers, List.append_assoc]
    refine (reads_u64 _).recovers.bind ?_
    have hmembers : Recovers (do
        let n ← Read.count kMaxBoundaryMembers "encoded boundary member count exceeds bound"
        many readMember n) _ b.members :=
      recovers_counted (fun member _ => recovers_member member) fun member _ => by
        rw [BoundaryMember.encode, Write.resourceId]
        simp [blob_ne_nil]
    simpa only [bind_assoc] using hmembers.bind_pure (Recovers.pure (b.generation, b.members))
  obtain ⟨rfl, rfl⟩ := Prod.mk.inj (hrecovers.runAll hlen hread)
  have hgeneration : b.generation ≠ 0 := by
    obtain ⟨hg, -, hcreated⟩ := create_eq_ok h
    exact hg ▸ hcreated.generation_ne_zero
  have hself : Except.ok b = Except.ok b' := (create_self hgeneration).symm.trans h
  exact (Except.ok.inj hself).symm

/-- The encoding of the unset boundary is refused. -/
theorem decode_encode_unset : decode unset.encode =
    fail .invalidArgument "boundary generation must be non-zero" := by
  decide +kernel

end ContainmentBoundary

end Fcfn
