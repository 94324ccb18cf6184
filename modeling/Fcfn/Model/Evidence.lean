import Fcfn.Core.Canonical
import Fcfn.Lib.Sorted

/-!
# Evidence

An evidence vector holds at most one entry for each resource, in the order of the identities.
`EvidenceVector.merged` takes an observation in: a newer generation replaces, an equal one must
agree, an older one is refused. A vector carries its rules as a field, and is either the empty one
the runtime starts with, whose digest is zero, or one that `build` has accepted. -/

namespace Fcfn

open Words Codec Sorted

/-- Observed failure state of a resource. -/
inductive EvidenceState
  | present | absent | unknown
  deriving DecidableEq, Repr

/-- The byte of an evidence state. -/
def EvidenceState.toByte : EvidenceState → UInt8
  | .present => 0
  | .absent => 1
  | .unknown => 2

/-- The evidence state of a byte. -/
def EvidenceState.ofByte (b : UInt8) : EvidenceState :=
  if b = 0 then .present else if b = 1 then .absent else .unknown

/-- Raw observation submitted to the runtime. -/
structure FailureObservation where
  resource : ResourceId
  state : EvidenceState
  generation : EvidenceGeneration
  source_digest : Digest
  deriving DecidableEq, Repr

/-- Durable record of an observation that was taken in. -/
structure DetectionRecord where
  resource : ResourceId
  state : EvidenceState
  generation : EvidenceGeneration
  source_digest : Digest
  epoch : CoordinatorEpoch
  boot : BootIdentity
  sequence : Sequence
  record_digest : Digest := Digest.zero
  deriving DecidableEq, Repr

/-- The bytes of every field but the digest. -/
def DetectionRecord.encodeContent (record : DetectionRecord) : Bytes :=
  Write.resourceId record.resource ++ Write.u8 record.state.toByte ++ Write.u64 record.generation ++
    Write.digest record.source_digest ++ Write.u64 record.epoch ++ Write.u64 record.boot.id ++
    Write.u32 record.boot.process_id ++ Write.u64 record.sequence

/-- The digest of a record's content. -/
def DetectionRecord.computeDigest (record : DetectionRecord) : Digest :=
  digestOf record.encodeContent

/-- One entry of the evidence vector. -/
structure EvidenceEntry where
  resource : ResourceId
  state : EvidenceState
  generation : EvidenceGeneration
  source_digest : Digest
  deriving DecidableEq, Repr

/-- The bytes of one entry. -/
def EvidenceEntry.encode (entry : EvidenceEntry) : Bytes :=
  Write.resourceId entry.resource ++ Write.u8 entry.state.toByte ++ Write.u64 entry.generation ++
    Write.digest entry.source_digest

/-- The bytes of a list of entries. -/
def encodeEntries (entries : List EvidenceEntry) : Bytes :=
  Write.size entries.length ++ entries.flatMap EvidenceEntry.encode

/-- The rules of an evidence vector. -/
structure EvidenceValid (entries : List EvidenceEntry) (digest : Digest) : Prop where
  length_le : entries.length ≤ kMaxTopologyNodes
  ascending : Ascending EvidenceEntry.resource entries
  resource_ne_nil : ∀ entry ∈ entries, entry.resource ≠ []
  generation_ne_zero : ∀ entry ∈ entries, entry.generation ≠ 0
  digest_eq : digest = digestOf (encodeEntries entries) ∨ (entries = [] ∧ digest = Digest.zero)

/-- Ordered, canonical evidence vector. -/
structure EvidenceVector where
  entries : List EvidenceEntry
  digest : Digest
  valid : EvidenceValid entries digest

instance : DecidableEq EvidenceVector := fun v v' =>
  decidable_of_iff (v.entries = v'.entries ∧ v.digest = v'.digest)
    ⟨fun h => by cases v; cases v'; simp_all, fun h => h ▸ ⟨rfl, rfl⟩⟩

namespace EvidenceVector

/-- The vector before any observation. -/
def empty : EvidenceVector :=
  ⟨[], Digest.zero, ⟨by simp, List.Pairwise.nil, by simp, by simp, Or.inr ⟨rfl, rfl⟩⟩⟩

/-- The checks on the sorted entries, in order; `previous` is the resource of the entry before. -/
def checkEntries : Option ResourceId → List EvidenceEntry → Result Unit
  | _, [] => .ok ()
  | previous, entry :: rest => do
    require (entry.resource != []) .invalidArgument "evidence entry has empty resource id"
    require (entry.generation != 0) .invalidArgument "evidence generation must be non-zero"
    require (previous != some entry.resource) .alreadyExists
      "duplicate resource in evidence vector"
    checkEntries (some entry.resource) rest

/-- The entries of a vector to be built, sorted and checked. -/
def arrange (entries : List EvidenceEntry) : Result (List EvidenceEntry) := do
  require (entries.length ≤ kMaxTopologyNodes) .limitExceeded "evidence vector exceeds bound"
  let entries := sortBy EvidenceEntry.resource entries
  checkEntries none entries
  return entries

/-- Entries that pass their checks are well formed, and no two neighbours share a resource. -/
theorem checkEntries_spec {previous : Option ResourceId} {entries : List EvidenceEntry} {u : Unit}
    (h : checkEntries previous entries = .ok u) :
    (∀ entry ∈ entries, entry.resource ≠ [] ∧ entry.generation ≠ 0) ∧
      (∀ entry, entries.head? = some entry → previous ≠ some entry.resource) ∧
      entries.IsChain (fun a b => a.resource ≠ b.resource) := by
  induction entries generalizing previous with
  | nil => simp
  | cons entry rest ih =>
    simp only [checkEntries, require_bind_eq_ok, bne_iff_ne] at h
    obtain ⟨hid, hgen, hprev, hrest⟩ := h
    obtain ⟨hvalid, hhead, hchain⟩ := ih hrest
    refine ⟨fun x hx => ?_, fun x hx => ?_, ?_⟩
    · rcases List.mem_cons.mp hx with rfl | hx
      · exact ⟨hid, hgen⟩
      · exact hvalid x hx
    · simp only [List.head?_cons, Option.some.injEq] at hx
      exact hx ▸ hprev
    · rw [List.isChain_cons]
      exact ⟨fun y hy heq => hhead y hy (by rw [heq]), hchain⟩

/-- What is arranged is the sorted list of entries. -/
theorem arrange_eq_ok {entries entries' : List EvidenceEntry} (h : arrange entries = .ok entries') :
    entries' = sortBy EvidenceEntry.resource entries ∧
      EvidenceValid entries' (digestOf (encodeEntries entries')) := by
  simp only [arrange, require_bind_eq_ok, decide_eq_true_eq] at h
  obtain ⟨hlen, h⟩ := h
  simp only [bind_eq_ok, pure_eq_ok] at h
  obtain ⟨_, hcheck, rfl⟩ := h
  obtain ⟨hvalid, -, hchain⟩ := checkEntries_spec hcheck
  exact ⟨rfl, by simpa using hlen, ascending_of_isChain pairwise_sortBy hchain,
    fun x hx => (hvalid x hx).1, fun x hx => (hvalid x hx).2, Or.inl rfl⟩

/-- Build from entries: sorts by resource, refuses duplicates. -/
def build (entries : List EvidenceEntry) : Result EvidenceVector :=
  match h : arrange entries with
  | .error e => .error e
  | .ok entries' => .ok ⟨entries', digestOf (encodeEntries entries'), (arrange_eq_ok h).2⟩

/-- The entries of a vector that is built. -/
theorem build_eq_ok {entries : List EvidenceEntry} {v : EvidenceVector}
    (h : build entries = .ok v) :
    v.entries = sortBy EvidenceEntry.resource entries ∧
      v.digest = digestOf (encodeEntries v.entries) := by
  rw [build] at h
  split at h
  · exact absurd h (by simp)
  · rename_i entries' harr
    obtain rfl := Except.ok.inj h
    exact ⟨(arrange_eq_ok harr).1, rfl⟩

/-- The entry of a resource. -/
def find (v : EvidenceVector) (resource : ResourceId) : Option EvidenceEntry :=
  v.entries.find? (fun entry => entry.resource == resource)

/-- Resources whose current state is Present. -/
def presentResources (v : EvidenceVector) : List ResourceId :=
  (v.entries.filter (fun entry => entry.state == .present)).map EvidenceEntry.resource

/-- Merge an observation into the vector. -/
def merged (v : EvidenceVector) (observation : FailureObservation) : Result EvidenceVector := do
  require (observation.resource != []) .invalidArgument
    "observation resource id must not be empty"
  require (observation.generation != 0) .invalidArgument "observation generation must be non-zero"
  let next : EvidenceEntry := ⟨observation.resource, observation.state, observation.generation,
    observation.source_digest⟩
  match v.find observation.resource with
  | none =>
    build (v.entries.takeWhile (fun entry => entry.resource < observation.resource) ++
      next :: v.entries.dropWhile (fun entry => entry.resource < observation.resource))
  | some entry =>
    if observation.generation < entry.generation then
      fail .sequenceRegression "observation generation regressed"
    else if observation.generation = entry.generation then
      if entry.source_digest ≠ observation.source_digest ∨ entry.state ≠ observation.state then
        fail .conflict "contradictory observation at the same generation"
      else .ok v
    else build (v.entries.map fun e => if e.resource = observation.resource then next else e)

/-- The entry of a resource is the one entry that names it. -/
theorem find_eq_some {v : EvidenceVector} {resource : ResourceId} {entry : EvidenceEntry} :
    v.find resource = some entry ↔ entry ∈ v.entries ∧ entry.resource = resource := by
  constructor
  · intro h
    exact ⟨List.mem_of_find?_eq_some h, by simpa using List.find?_some h⟩
  · rintro ⟨hmem, hresource⟩
    cases hfind : v.find resource with
    | none => exact absurd hresource (by simpa using List.find?_eq_none.mp hfind entry hmem)
    | some other =>
      have hother : other.resource = resource := by simpa using List.find?_some hfind
      rw [v.valid.ascending.eq_of_key (List.mem_of_find?_eq_some hfind) hmem
        (hother.trans hresource.symm)]

/-- The entry that an observation leads to. -/
def entryOf (observation : FailureObservation) : EvidenceEntry :=
  ⟨observation.resource, observation.state, observation.generation, observation.source_digest⟩

/-- The entries of a vector that is built from others, with one in the place of those of its
resource. -/
theorem find_of_build (v : EvidenceVector) (entry : EvidenceEntry) {entries : List EvidenceEntry}
    {merged : EvidenceVector} (hbuild : build entries = .ok merged)
    (hmem : ∀ e, e ∈ entries ↔ e = entry ∨ e ∈ v.entries ∧ e.resource ≠ entry.resource)
    (resource : ResourceId) :
    merged.find resource = if resource = entry.resource then some entry else v.find resource := by
  have hmerged : ∀ e, e ∈ merged.entries ↔
      e = entry ∨ e ∈ v.entries ∧ e.resource ≠ entry.resource := by
    intro e
    rw [(build_eq_ok hbuild).1, mem_sortBy, hmem]
  ext e
  rw [find_eq_some, hmerged]
  split
  · rename_i heq
    subst heq
    constructor
    · rintro ⟨rfl | ⟨-, hne⟩, heq⟩
      · rfl
      · exact absurd heq hne
    · intro h
      obtain rfl := Option.some.inj h
      exact ⟨Or.inl rfl, rfl⟩
  · rename_i hne
    rw [find_eq_some]
    constructor
    · rintro ⟨rfl | ⟨hmem, -⟩, heq⟩
      · exact absurd heq.symm hne
      · exact ⟨hmem, heq⟩
    · rintro ⟨hmem, rfl⟩
      exact ⟨Or.inr ⟨hmem, hne⟩, rfl⟩

/-- An observation that is taken in is the entry in force, or is newer and becomes the entry of its
resource. -/
theorem merged_spec {v merged : EvidenceVector} {observation : FailureObservation}
    (h : v.merged observation = .ok merged) :
    (merged = v ∧ v.find observation.resource = some (entryOf observation)) ∨
      (∀ entry, v.find observation.resource = some entry →
          entry.generation < observation.generation) ∧
        ∀ resource, merged.find resource =
          if resource = observation.resource then some (entryOf observation)
          else v.find resource := by
  simp only [EvidenceVector.merged, require_bind_eq_ok] at h
  obtain ⟨-, -, h⟩ := h
  split at h
  · rename_i hnone
    refine Or.inr ⟨fun entry hentry => absurd (hnone.symm.trans hentry) (by simp),
      find_of_build v (entryOf observation) h fun e => ?_⟩
    have hother : ∀ e ∈ v.entries, e.resource ≠ observation.resource :=
      fun e he => by simpa using List.find?_eq_none.mp hnone e he
    have hsplit := List.takeWhile_append_dropWhile
      (p := fun entry : EvidenceEntry => decide (entry.resource < observation.resource))
      (l := v.entries)
    constructor
    · intro he
      rw [List.mem_append, List.mem_cons] at he
      rcases he with he | rfl | he
      · have hmem := hsplit ▸ List.mem_append_left _ he
        exact Or.inr ⟨hmem, hother e hmem⟩
      · exact Or.inl rfl
      · have hmem := hsplit ▸ List.mem_append_right _ he
        exact Or.inr ⟨hmem, hother e hmem⟩
    · rintro (rfl | ⟨hmem, -⟩)
      · simp [entryOf]
      · rw [← hsplit, List.mem_append] at hmem
        rw [List.mem_append, List.mem_cons]
        exact hmem.imp_right Or.inr
  · rename_i entry hentry
    obtain ⟨hmem, hresource⟩ := find_eq_some.mp hentry
    split at h
    · exact absurd h (by simp [fail])
    rename_i hnot_older
    split at h
    · rename_i hsame
      split at h
      · exact absurd h (by simp [fail])
      · rename_i hagrees
        rw [not_or, not_ne_iff, not_ne_iff] at hagrees
        obtain rfl := Except.ok.inj h
        refine Or.inl ⟨rfl, ?_⟩
        rw [hentry, entryOf, hsame, ← hresource, ← hagrees.1, ← hagrees.2]
    · rename_i hne
      refine Or.inr ⟨fun e he => ?_, find_of_build v (entryOf observation) h fun e => ?_⟩
      · obtain rfl := Option.some.inj (he.symm.trans hentry)
        exact UInt64.lt_of_le_of_ne (UInt64.not_lt.mp hnot_older) (Ne.symm hne)
      · simp only [List.mem_map, entryOf]
        constructor
        · rintro ⟨e', he', rfl⟩
          split
          · exact Or.inl rfl
          · rename_i hne'
            exact Or.inr ⟨he', hne'⟩
        · rintro (rfl | ⟨he, hne'⟩)
          · exact ⟨entry, hmem, by rw [if_pos hresource]⟩
          · exact ⟨e, he, by rw [if_neg hne']⟩

/-- Canonical byte encoding. -/
def encode (v : EvidenceVector) : Bytes := encodeEntries v.entries

/-- Read one entry. -/
def readEntry : Read EvidenceEntry := do
  let resource ← Read.resourceId
  let state ← Read.u8
  let generation ← Read.u64
  let source_digest ← Read.digest
  Read.refuse (state > 2) .invalidArgument "invalid evidence state value"
  return ⟨resource, .ofByte state, generation, source_digest⟩

/-- Read a list of entries. -/
def readEntries : Read (List EvidenceEntry) := do
  let count ← Read.count kMaxTopologyNodes "encoded evidence count exceeds bound"
  many readEntry count

/-- Decode a canonical encoding and validate what it holds. -/
def decode (bytes : Bytes) : Result EvidenceVector := do
  let entries ← Read.document readEntries bytes
  build entries

/-! ## Round trip -/

/-- The identities of a vector are canonical. -/
def Canonical (v : EvidenceVector) : Prop :=
  ∀ entry ∈ v.entries, isValidResourceId entry.resource = true

/-- Entries with ascending resources pass the checks. -/
theorem checkEntries_of_ascending {entries : List EvidenceEntry}
    (hvalid : ∀ entry ∈ entries, entry.resource ≠ [] ∧ entry.generation ≠ 0)
    (hascending : Ascending EvidenceEntry.resource entries) {previous : Option ResourceId}
    (hprevious : ∀ entry, entries.head? = some entry → previous ≠ some entry.resource) :
    checkEntries previous entries = .ok () := by
  induction entries generalizing previous with
  | nil => rfl
  | cons entry rest ih =>
    have hentry := hvalid entry (by simp)
    rw [Ascending, List.map_cons, List.pairwise_cons] at hascending
    simp only [checkEntries, require_bind_eq_ok, bne_iff_ne]
    refine ⟨hentry.1, hentry.2, hprevious entry rfl,
      ih (fun e he => hvalid e (List.mem_cons_of_mem _ he)) hascending.2 fun e he heq => ?_⟩
    have hmem : e ∈ rest := List.mem_of_mem_head? he
    have hlt := hascending.1 e.resource (List.mem_map.mpr ⟨e, hmem, rfl⟩)
    rw [Option.some.inj heq] at hlt
    exact lt_irrefl _ hlt

/-- A vector is built from its own entries, with the digest of their encoding. -/
theorem build_entries (v : EvidenceVector) :
    ∃ v', build v.entries = .ok v' ∧ v'.entries = v.entries ∧ v'.digest = digestOf v.encode := by
  have hsorted : sortBy EvidenceEntry.resource v.entries = v.entries :=
    sortBy_eq_self v.valid.ascending
  have harrange : arrange v.entries = .ok v.entries := by
    simp only [arrange, require_bind_eq_ok, hsorted]
    refine ⟨decide_eq_true v.valid.length_le, ?_⟩
    rw [bind_eq_ok]
    exact ⟨(), checkEntries_of_ascending (fun entry he => ⟨v.valid.resource_ne_nil entry he,
      v.valid.generation_ne_zero entry he⟩) v.valid.ascending (by simp), rfl⟩
  cases hbuild : build v.entries with
  | error e =>
    unfold build at hbuild
    split at hbuild
    · rename_i e' he'
      exact absurd (he'.symm.trans harrange) (by simp)
    · exact absurd hbuild (by simp)
  | ok v' =>
    obtain ⟨hentries, hdigest⟩ := build_eq_ok hbuild
    rw [hsorted] at hentries
    exact ⟨v', rfl, hentries, by rw [hdigest, hentries]; rfl⟩

/-- An entry with a canonical identity is read back. -/
theorem reads_entry {entry : EvidenceEntry} (h : isValidResourceId entry.resource = true) :
    Reads readEntry entry.encode entry := by
  unfold readEntry EvidenceEntry.encode
  simp only [List.append_assoc]
  refine (reads_resourceId h).bind ((reads_u8 _).bind ((reads_u64 _).bind ((reads_digest _).bind_pure
    (Reads.skip (reads_refuse ?_) ?_))))
  · cases entry.state <;> decide
  · have hbyte : EvidenceState.ofByte entry.state.toByte = entry.state := by
      cases entry.state <;> rfl
    rw [hbyte]
    exact Reads.pure _

/-- The entries of a vector with canonical identities are read back. -/
theorem reads_entries {v : EvidenceVector} (h : v.Canonical) :
    Reads readEntries v.encode v.entries := by
  unfold readEntries encode encodeEntries
  exact (reads_count v.valid.length_le (by decide)).bind
    (Reads.many v.entries fun entry he => reads_entry (h entry he))

/-- The canonical encoding of a vector with canonical identities is decoded as its entries, with the
digest of the encoding. -/
theorem decode_encode {v : EvidenceVector} (h : v.Canonical) :
    ∃ v', decode v.encode = .ok v' ∧ v'.entries = v.entries ∧ v'.digest = digestOf v.encode := by
  obtain ⟨v', hbuild, hentries, hdigest⟩ := v.build_entries
  refine ⟨v', ?_, hentries, hdigest⟩
  rw [decode, bind_eq_ok]
  exact ⟨v.entries, (reads_entries h).runAll _, hbuild⟩

/-- An entry is recovered. -/
theorem recovers_entry (entry : EvidenceEntry) : Recovers readEntry entry.encode entry := by
  unfold readEntry EvidenceEntry.encode
  simp only [List.append_assoc]
  refine (recovers_resourceId _).bind ((reads_u8 _).recovers.bind ((reads_u64 _).recovers.bind
    ((reads_digest _).recovers.bind_pure (Recovers.skip recovers_refuse ?_))))
  have hbyte : EvidenceState.ofByte entry.state.toByte = entry.state := by
    cases entry.state <;> rfl
  rw [hbyte]
  exact Recovers.pure _

/-- Entries are read with canonical identities. -/
theorem returns_entries : Returns readEntries fun entries =>
    ∀ entry ∈ entries, isValidResourceId entry.resource = true := by
  have hentry : Returns readEntry fun entry => isValidResourceId entry.resource = true :=
    returns_resourceId.bind fun _ hid => Returns.after fun _ => Returns.after fun _ =>
      Returns.after fun _ => Returns.after fun _ => Returns.pure hid
  exact returns_count.bind fun n _ => (Returns.many hentry n).mono fun _ hall => hall.2

/-- A vector that is decoded has canonical identities. -/
theorem decode_returns {bytes : Bytes} {v : EvidenceVector} (h : decode bytes = .ok v) :
    v.Canonical := by
  rw [decode, bind_eq_ok] at h
  obtain ⟨entries, hread, hbuild⟩ := h
  intro entry hentry
  rw [(build_eq_ok hbuild).1, mem_sortBy] at hentry
  exact returns_entries.runAll hread entry hentry

/-- A vector whose encoding is decoded has canonical identities. -/
theorem canonical_of_decode {v v' : EvidenceVector} (hlen : v.encode.length < 2 ^ 32)
    (h : decode v.encode = .ok v') : v.Canonical := by
  rw [decode, bind_eq_ok] at h
  obtain ⟨entries, hread, -⟩ := h
  have hne : ∀ entry ∈ v.entries, entry.encode ≠ [] := by
    intro entry _ hnil
    have hlength := congrArg List.length hnil
    simp [EvidenceEntry.encode, Write.u8] at hlength
  have hrecovers : Recovers readEntries v.encode v.entries :=
    recovers_counted (fun entry _ => recovers_entry entry) hne
  obtain rfl := hrecovers.runAll hlen hread
  exact returns_entries.runAll hread

end EvidenceVector

end Fcfn
