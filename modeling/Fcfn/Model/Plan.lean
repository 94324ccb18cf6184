import Fcfn.Model.Authority
import Fcfn.Model.Boundary
import Fcfn.Model.Explanation

/-!
# Containment plan

The externally visible decision, its digest and its canonical form. A sealed plan is decoded from
its encoding when its boundary has been created, its identities are canonical and its lists are
within the decoder's bounds (`ContainmentPlan.decode_encode`). -/

namespace Fcfn

open Words Codec

/-- Strength of the containment claim carried by a plan. -/
inductive ContainmentClaim
  | provenContainment | provenFeasibleNotMinimal | indeterminate | provenInfeasible | invalid
  | unsupported
  deriving DecidableEq, Repr

/-- Whether a containment set exists. -/
inductive FeasibilityStatus
  | provenFeasible | provenInfeasible | unknown
  deriving DecidableEq, Repr

/-- Whether the containment set is minimal. -/
inductive OptimalityStatus
  | provenOptimal | boundedNotProven | notAttempted | notApplicable
  deriving DecidableEq, Repr

/-- Quality of the evidence the plan was computed against. -/
inductive EvidenceCurrency
  | current | incompleteFrontier | stale | conflicting
  deriving DecidableEq, Repr

/-- The byte of a claim. -/
def ContainmentClaim.toByte : ContainmentClaim → UInt8
  | .provenContainment => 0
  | .provenFeasibleNotMinimal => 1
  | .indeterminate => 2
  | .provenInfeasible => 3
  | .invalid => 4
  | .unsupported => 5

/-- The claim of a byte. -/
def ContainmentClaim.ofByte (b : UInt8) : ContainmentClaim :=
  if b = 0 then .provenContainment else if b = 1 then .provenFeasibleNotMinimal
  else if b = 2 then .indeterminate else if b = 3 then .provenInfeasible
  else if b = 4 then .invalid else .unsupported

/-- The byte of a feasibility status. -/
def FeasibilityStatus.toByte : FeasibilityStatus → UInt8
  | .provenFeasible => 0
  | .provenInfeasible => 1
  | .unknown => 2

/-- The feasibility status of a byte. -/
def FeasibilityStatus.ofByte (b : UInt8) : FeasibilityStatus :=
  if b = 0 then .provenFeasible else if b = 1 then .provenInfeasible else .unknown

/-- The byte of an optimality status. -/
def OptimalityStatus.toByte : OptimalityStatus → UInt8
  | .provenOptimal => 0
  | .boundedNotProven => 1
  | .notAttempted => 2
  | .notApplicable => 3

/-- The optimality status of a byte. -/
def OptimalityStatus.ofByte (b : UInt8) : OptimalityStatus :=
  if b = 0 then .provenOptimal else if b = 1 then .boundedNotProven
  else if b = 2 then .notAttempted else .notApplicable

/-- The byte of an evidence currency. -/
def EvidenceCurrency.toByte : EvidenceCurrency → UInt8
  | .current => 0
  | .incompleteFrontier => 1
  | .stale => 2
  | .conflicting => 3

/-- The evidence currency of a byte. -/
def EvidenceCurrency.ofByte (b : UInt8) : EvidenceCurrency :=
  if b = 0 then .current else if b = 1 then .incompleteFrontier
  else if b = 2 then .stale else .conflicting

/-- Deterministic search accounting, reported with every plan. -/
structure SearchCounters where
  candidate_nodes : UInt64 := 0
  explored_nodes : UInt64 := 0
  pruned_branches : UInt64 := 0
  residual_paths_checked : UInt64 := 0
  budget : UInt64 := 0
  budget_exhausted : Bool := false
  heuristic_used : Bool := false
  deriving DecidableEq, Repr

/-- Compact refutation: a path whose nodes are all ineligible for containment. -/
structure InfeasibilityWitness where
  present : Bool := false
  path : List ResourceId := []
  deriving DecidableEq, Repr

/-- The externally visible containment decision. -/
structure ContainmentPlan where
  generation : PlanGeneration
  boundary : ContainmentBoundary := .unset
  claim : ContainmentClaim := .indeterminate
  feasibility : FeasibilityStatus := .unknown
  optimality : OptimalityStatus := .notAttempted
  currency : EvidenceCurrency := .current
  authority : AuthorityVector
  topology_digest : Digest
  policy_digest : Digest
  evidence_digest : Digest
  instance_digest : Digest := Digest.zero
  failure_sources : List ResourceId := []
  protected_obligations : List ResourceId := []
  uncontainable_sources : List ResourceId := []
  proven_necessary_members : List ResourceId := []
  indeterminate_necessity : List ResourceId := []
  total_weight : UInt64 := 0
  member_count : UInt64 := 0
  counters : SearchCounters := {}
  infeasibility : InfeasibilityWitness := {}
  explanation : Explanation := .empty
  digest : Digest := Digest.zero
  deriving DecidableEq

namespace ContainmentPlan

/-- The bytes of the search accounting. -/
def encodeCounters (counters : SearchCounters) : Bytes :=
  Write.u64 counters.candidate_nodes ++ Write.u64 counters.explored_nodes ++
    Write.u64 counters.pruned_branches ++ Write.u64 counters.residual_paths_checked ++
    Write.u64 counters.budget ++ Write.boolean counters.budget_exhausted ++
    Write.boolean counters.heuristic_used

/-- The bytes of the claim and the statuses. -/
def encodeClaims (plan : ContainmentPlan) : Bytes :=
  Write.u8 plan.claim.toByte ++ Write.u8 plan.feasibility.toByte ++
    Write.u8 plan.optimality.toByte ++ Write.u8 plan.currency.toByte

/-- The bytes of the digests of what the plan was computed from. -/
def encodeDigests (plan : ContainmentPlan) : Bytes :=
  Write.digest plan.topology_digest ++ Write.digest plan.policy_digest ++
    Write.digest plan.evidence_digest ++ Write.digest plan.instance_digest

/-- The bytes of the lists of identities. -/
def encodeLists (plan : ContainmentPlan) : Bytes :=
  Write.ids plan.failure_sources ++ Write.ids plan.protected_obligations ++
    Write.ids plan.uncontainable_sources ++ Write.ids plan.proven_necessary_members ++
    Write.ids plan.indeterminate_necessity

/-- Canonical digest over every decision-bearing field. -/
def computeDigest (plan : ContainmentPlan) : Digest :=
  digestOf <|
    Write.u64 plan.generation ++ Write.digest plan.boundary.digest ++ encodeClaims plan ++
    Write.digest plan.authority.digest ++ encodeDigests plan ++ encodeLists plan ++
    Write.u64 plan.total_weight ++ Write.u64 plan.member_count ++ encodeCounters plan.counters ++
    Write.boolean plan.infeasibility.present ++ Write.ids plan.infeasibility.path ++
    Write.size plan.explanation.items.length ++
    plan.explanation.items.flatMap Explanation.digestItem ++
    Write.boolean plan.explanation.truncated

/-- Store the digest of the plan's content. -/
def sealed (plan : ContainmentPlan) : ContainmentPlan :=
  { plan with digest := plan.computeDigest }

@[simp] theorem sealed_boundary (plan : ContainmentPlan) : plan.sealed.boundary = plan.boundary :=
  rfl

@[simp] theorem sealed_claim (plan : ContainmentPlan) : plan.sealed.claim = plan.claim := rfl

@[simp] theorem sealed_generation (plan : ContainmentPlan) :
    plan.sealed.generation = plan.generation := rfl

@[simp] theorem sealed_authority (plan : ContainmentPlan) :
    plan.sealed.authority = plan.authority := rfl

@[simp] theorem sealed_total_weight (plan : ContainmentPlan) :
    plan.sealed.total_weight = plan.total_weight := rfl

@[simp] theorem sealed_member_count (plan : ContainmentPlan) :
    plan.sealed.member_count = plan.member_count := rfl

/-- A plan is releasable only when the claim proves containment and the boundary is empty. -/
def isReleasable (plan : ContainmentPlan) : Bool :=
  plan.claim == .provenContainment && plan.boundary.members.isEmpty

/-- Canonical byte encoding. -/
def encode (plan : ContainmentPlan) : Bytes :=
  Write.u64 plan.generation ++ Write.blob plan.boundary.encode ++ encodeClaims plan ++
    Write.blob plan.authority.encode ++ encodeDigests plan ++ encodeLists plan ++
    Write.u64 plan.total_weight ++ Write.u64 plan.member_count ++ encodeCounters plan.counters ++
    Write.boolean plan.infeasibility.present ++ Write.ids plan.infeasibility.path ++
    plan.explanation.encode ++ Write.digest plan.digest

/-- Read a list of identities within a bound. -/
def readIds (max_entries : ℕ) : Read (List ResourceId) := do
  let count ← Read.count max_entries "encoded identifier list exceeds bound"
  many Read.resourceId count

/-- Read the search accounting. -/
def readCounters : Read SearchCounters := do
  let candidate_nodes ← Read.u64
  let explored_nodes ← Read.u64
  let pruned_branches ← Read.u64
  let residual_paths_checked ← Read.u64
  let budget ← Read.u64
  let budget_exhausted ← Read.boolean
  let heuristic_used ← Read.boolean
  return ⟨candidate_nodes, explored_nodes, pruned_branches, residual_paths_checked, budget,
    budget_exhausted, heuristic_used⟩

/-- Read a plan. -/
def read : Read ContainmentPlan := do
  let generation ← Read.u64
  let boundary_bytes ← Read.blob kMaxRecordPayloadBytes
  let claim ← Read.u8
  let feasibility ← Read.u8
  let optimality ← Read.u8
  let currency ← Read.u8
  let authority_bytes ← Read.blob 1024
  let topology_digest ← Read.digest
  let policy_digest ← Read.digest
  let evidence_digest ← Read.digest
  let instance_digest ← Read.digest
  Read.refuse (claim > 5 ∨ feasibility > 2 ∨ optimality > 3 ∨ currency > 3)
    .invalidArgument "invalid plan enum value"
  let boundary ← liftM (ContainmentBoundary.decode boundary_bytes)
  let authority ← liftM (AuthorityVector.decode authority_bytes)
  let failure_sources ← readIds kMaxFailureSources
  let protected_obligations ← readIds kMaxProtectedObligations
  let uncontainable_sources ← readIds kMaxFailureSources
  let proven_necessary_members ← readIds kMaxBoundaryMembers
  let indeterminate_necessity ← readIds kMaxBoundaryMembers
  let total_weight ← Read.u64
  let member_count ← Read.u64
  let counters ← readCounters
  let present ← Read.boolean
  let path ← readIds kMaxCutCertificatePathNodes
  let explanation ← Explanation.read
  let digest ← Read.digest
  return {
    generation := generation
    boundary := boundary
    claim := .ofByte claim
    feasibility := .ofByte feasibility
    optimality := .ofByte optimality
    currency := .ofByte currency
    authority := authority
    topology_digest := topology_digest
    policy_digest := policy_digest
    evidence_digest := evidence_digest
    instance_digest := instance_digest
    failure_sources := failure_sources
    protected_obligations := protected_obligations
    uncontainable_sources := uncontainable_sources
    proven_necessary_members := proven_necessary_members
    indeterminate_necessity := indeterminate_necessity
    total_weight := total_weight
    member_count := member_count
    counters := counters
    infeasibility := ⟨present, path⟩
    explanation := explanation
    digest := digest }

/-- Decode a canonical encoding and check the digest it stores. -/
def decode (bytes : Bytes) : Result ContainmentPlan := do
  let plan ← Read.document read bytes
  require (plan.digest == plan.computeDigest) .corrupt "plan digest does not match its contents"
  return plan

/-! ## Round trip -/

/-- A list of identities that the decoder accepts. -/
structure IdsWithin (max_entries : ℕ) (ids : List ResourceId) : Prop where
  length_le : ids.length ≤ max_entries
  canonical : ∀ id ∈ ids, isValidResourceId id = true

/-- A plan that the decoder accepts. -/
structure Decodable (plan : ContainmentPlan) : Prop where
  boundary_created : plan.boundary.generation ≠ 0
  members_canonical : ∀ member ∈ plan.boundary.members, ContainmentBoundary.Canonical member
  failure_sources : IdsWithin kMaxFailureSources plan.failure_sources
  protected_obligations : IdsWithin kMaxProtectedObligations plan.protected_obligations
  uncontainable_sources : IdsWithin kMaxFailureSources plan.uncontainable_sources
  proven_necessary_members : IdsWithin kMaxBoundaryMembers plan.proven_necessary_members
  indeterminate_necessity : IdsWithin kMaxBoundaryMembers plan.indeterminate_necessity
  path : IdsWithin kMaxCutCertificatePathNodes plan.infeasibility.path
  explanation : plan.explanation.Canonical
  digest : plan.digest = plan.computeDigest

/-- A list of identities within its bound is read back. -/
theorem reads_ids {max_entries : ℕ} {ids : List ResourceId} (h : IdsWithin max_entries ids)
    (hb : max_entries < 2 ^ 32) : Reads (readIds max_entries) (Write.ids ids) ids :=
  (reads_count h.length_le hb).bind (Reads.many ids fun id hid => reads_resourceId (h.canonical id hid))

/-- The search accounting is read back. -/
theorem reads_counters (counters : SearchCounters) :
    Reads readCounters (encodeCounters counters) counters := by
  simp only [encodeCounters, List.append_assoc]
  refine (reads_u64 _).bind ((reads_u64 _).bind ((reads_u64 _).bind ((reads_u64 _).bind
    ((reads_u64 _).bind ((reads_boolean _).bind ((reads_boolean _).bind_pure ?_))))))
  exact Reads.pure _

/-- The enumerations' bytes are in range and name them. -/
theorem enums_ok (plan : ContainmentPlan) :
    ¬ (plan.claim.toByte > 5 ∨ plan.feasibility.toByte > 2 ∨ plan.optimality.toByte > 3 ∨
        plan.currency.toByte > 3) ∧
      ContainmentClaim.ofByte plan.claim.toByte = plan.claim ∧
      FeasibilityStatus.ofByte plan.feasibility.toByte = plan.feasibility ∧
      OptimalityStatus.ofByte plan.optimality.toByte = plan.optimality ∧
      EvidenceCurrency.ofByte plan.currency.toByte = plan.currency := by
  refine ⟨?_, ?_, ?_, ?_, ?_⟩
  · rintro (h | h | h | h)
    · cases hc : plan.claim <;> rw [hc] at h <;> exact absurd h (by decide)
    · cases hc : plan.feasibility <;> rw [hc] at h <;> exact absurd h (by decide)
    · cases hc : plan.optimality <;> rw [hc] at h <;> exact absurd h (by decide)
    · cases hc : plan.currency <;> rw [hc] at h <;> exact absurd h (by decide)
  · cases plan.claim <;> rfl
  · cases plan.feasibility <;> rfl
  · cases plan.optimality <;> rfl
  · cases plan.currency <;> rfl

/-- A decodable plan is read back. -/
theorem reads_plan {plan : ContainmentPlan} (h : plan.Decodable)
    (hlen : plan.boundary.encode.length ≤ kMaxRecordPayloadBytes) :
    Reads read plan.encode plan := by
  obtain ⟨hrange, hclaim, hfeas, hopt, hcur⟩ := plan.enums_ok
  have hboundary := ContainmentBoundary.decode_encode h.boundary_created h.members_canonical
  have hauthority := plan.authority.decode_encode
  have hauth : plan.authority.encode.length ≤ 1024 := by
    simp [AuthorityVector.encode, Write.u64, Write.u32, Write.digest]
  simp only [encode, encodeClaims, encodeDigests, encodeLists, List.append_assoc]
  refine (reads_u64 _).bind ((reads_blob hlen (by decide)).bind ((reads_u8 _).bind
    ((reads_u8 _).bind ((reads_u8 _).bind ((reads_u8 _).bind ((reads_blob hauth (by decide)).bind
      ((reads_digest _).bind ((reads_digest _).bind ((reads_digest _).bind ((reads_digest _).bind
        (Reads.skip (reads_refuse hrange) (Reads.skip (reads_liftM hboundary)
          (Reads.skip (reads_liftM hauthority) ?_)))))))))))))
  refine (reads_ids h.failure_sources (by decide)).bind
    ((reads_ids h.protected_obligations (by decide)).bind
      ((reads_ids h.uncontainable_sources (by decide)).bind
        ((reads_ids h.proven_necessary_members (by decide)).bind
          ((reads_ids h.indeterminate_necessity (by decide)).bind ((reads_u64 _).bind
            ((reads_u64 _).bind ((reads_counters _).bind ((reads_boolean _).bind
              ((reads_ids h.path (by decide)).bind ((Explanation.reads_explanation
                h.explanation).bind ((reads_digest _).bind_pure ?_)))))))))))
  rw [hclaim, hfeas, hopt, hcur]
  exact Reads.pure _

/-- A decodable plan whose boundary fits its blob is decoded from its encoding. -/
theorem decode_encode_of_boundary {plan : ContainmentPlan} (h : plan.Decodable)
    (hlen : plan.boundary.encode.length ≤ kMaxRecordPayloadBytes) :
    decode plan.encode = .ok plan := by
  simp only [decode, Read.document, (reads_plan h hlen).runAll, bind, Except.bind]
  simp [require, h.digest, pure, Except.pure]

/-- A decodable plan whose encoding fits a record is decoded from its encoding. -/
theorem decode_encode {plan : ContainmentPlan} (h : plan.Decodable)
    (hlen : plan.encode.length ≤ kMaxRecordPayloadBytes) : decode plan.encode = .ok plan := by
  have hblob : plan.boundary.encode.length ≤ plan.encode.length := by
    simp only [encode, List.length_append, Write.blob]
    omega
  exact decode_encode_of_boundary h (hblob.trans hlen)

/-- A list of identities is recovered. -/
theorem recovers_ids {max_entries : ℕ} {ids : List ResourceId} :
    Recovers (readIds max_entries) (Write.ids ids) ids :=
  recovers_counted (fun id _ => recovers_resourceId id) fun id _ => blob_ne_nil id

/-- The encoding of a plan is decoded as that plan, or refused. -/
theorem decode_recovers {plan plan' : ContainmentPlan} (hlen : plan.encode.length < 2 ^ 32)
    (h : decode plan.encode = .ok plan') : plan' = plan := by
  have hrecovers : Recovers read plan.encode plan := by
    obtain ⟨-, hclaim, hfeas, hopt, hcur⟩ := plan.enums_ok
    refine Recovers.of_length fun hlen => ?_
    have hboundary : ∀ b, ContainmentBoundary.decode plan.boundary.encode = .ok b →
        b = plan.boundary := by
      refine fun b => ContainmentBoundary.decode_recovers ?_
      simp only [encode, List.length_append, Write.blob] at hlen
      omega
    have hauthority : ∀ v, AuthorityVector.decode plan.authority.encode = .ok v →
        v = plan.authority := by
      intro v hv
      rw [plan.authority.decode_encode] at hv
      exact (Except.ok.inj hv).symm
    simp only [encode, encodeClaims, encodeDigests, encodeLists, List.append_assoc]
    refine (reads_u64 _).recovers.bind (recovers_blob.bind ((reads_u8 _).recovers.bind
      ((reads_u8 _).recovers.bind ((reads_u8 _).recovers.bind ((reads_u8 _).recovers.bind
        (recovers_blob.bind ((reads_digest _).recovers.bind ((reads_digest _).recovers.bind
          ((reads_digest _).recovers.bind ((reads_digest _).recovers.bind
            (Recovers.skip recovers_refuse (Recovers.skip (recovers_liftM hboundary)
              (Recovers.skip (recovers_liftM hauthority) ?_)))))))))))))
    refine recovers_ids.bind (recovers_ids.bind (recovers_ids.bind (recovers_ids.bind
      (recovers_ids.bind ((reads_u64 _).recovers.bind ((reads_u64 _).recovers.bind
        ((reads_counters _).recovers.bind ((reads_boolean _).recovers.bind (recovers_ids.bind
          ((Explanation.recovers_explanation _).bind ((reads_digest _).recovers.bind_pure ?_)))))))))))
    rw [hclaim, hfeas, hopt, hcur]
    exact Recovers.pure _
  rw [decode, bind_eq_ok] at h
  obtain ⟨plan'', hread, h⟩ := h
  rw [require_bind_eq_ok, pure_eq_ok] at h
  obtain ⟨-, rfl⟩ := h
  exact hrecovers.runAll hlen hread

/-- Lists are read within their bound. -/
theorem returns_ids {max_entries : ℕ} :
    Returns (readIds max_entries) fun ids => IdsWithin max_entries ids :=
  returns_count.bind fun _ hn => (Returns.many returns_resourceId _).mono fun _ h =>
    ⟨h.1 ▸ hn, h.2⟩

/-- What is decoded is decodable. -/
theorem decode_decodable {bytes : Bytes} {plan : ContainmentPlan} (h : decode bytes = .ok plan) :
    plan.Decodable := by
  rw [decode, bind_eq_ok] at h
  obtain ⟨plan', hread, h⟩ := h
  simp only [require_bind_eq_ok, pure_eq_ok, beq_iff_eq] at h
  obtain ⟨hdigest, rfl⟩ := h
  have hreturns : Returns read fun plan => plan.digest = plan.computeDigest → plan.Decodable := by
    refine Returns.after fun _ => Returns.after fun _ => Returns.after fun _ => Returns.after
      fun _ => Returns.after fun _ => Returns.after fun _ => Returns.after fun _ => Returns.after
      fun _ => Returns.after fun _ => Returns.after fun _ => Returns.after fun _ => Returns.after
      fun _ => returns_liftM.bind fun boundary hb => returns_liftM.bind fun authority ha => ?_
    obtain ⟨hgen, hmem⟩ := ContainmentBoundary.decode_returns hb
    refine returns_ids.bind fun _ h1 => returns_ids.bind fun _ h2 => returns_ids.bind fun _ h3 =>
      returns_ids.bind fun _ h4 => returns_ids.bind fun _ h5 => Returns.after fun _ =>
      Returns.after fun _ => Returns.after fun _ => Returns.after fun _ => returns_ids.bind
      fun _ h6 => Explanation.returns_explanation.bind fun _ h7 => Returns.after fun _ =>
      Returns.pure fun hd => ?_
    exact ⟨hgen, hmem, h1, h2, h3, h4, h5, h6, h7, hd⟩
  exact hreturns.runAll hread hdigest

/-- A plan whose encoding fits a record is decoded again exactly when it is decodable. -/
theorem decode_encode_iff {plan : ContainmentPlan}
    (hlen : plan.encode.length ≤ kMaxRecordPayloadBytes) :
    decode plan.encode = .ok plan ↔ plan.Decodable :=
  ⟨decode_decodable, fun h => decode_encode h hlen⟩

end ContainmentPlan

end Fcfn
