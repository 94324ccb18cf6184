import Fcfn.Runtime.System
import Fcfn.Store.Pointer

/-!
# Documents

The JSON documents that answer a request, as the source's compact writer renders them. A document is
the bytes it is rendered as. -/

namespace Fcfn

open Words

/-! ## The writer -/

namespace Json

/-- One byte of a text. -/
def escapeByte (c : UInt8) : Bytes :=
  if c = 0x22 then [0x5c, 0x22]
  else if c = 0x5c then [0x5c, 0x5c]
  else if c = 0x0a then [0x5c, byteOf 'n']
  else if c = 0x0d then [0x5c, byteOf 'r']
  else if c = 0x09 then [0x5c, byteOf 't']
  else if c = 0x08 then [0x5c, byteOf 'b']
  else if c = 0x0c then [0x5c, byteOf 'f']
  else if c < 0x20 then [0x5c, byteOf 'u'] ++ hexDigits 4 c.toNat
  else [c]

/-- A text between quotes. -/
def text (bytes : Bytes) : Bytes := 0x22 :: (bytes.flatMap escapeByte ++ [0x22])

/-- A number. -/
def number (n : UInt64) : Bytes := toDecimal n

/-- A count, cast to 64 bits. -/
def count (n : ℕ) : Bytes := number (UInt64.ofNat n)

/-- A flag. -/
def flag (b : Bool) : Bytes := bytesOf (if b then "true" else "false")

/-- The elements with commas between them. -/
def separated (elements : List Bytes) : Bytes := (elements.intersperse [byteOf ',']).flatten

/-- The elements of an array. -/
def array (elements : List Bytes) : Bytes := 0x5b :: (separated elements ++ [0x5d])

/-- A member of an object: its key and its value. -/
def member (key : String) (value : Bytes) : Bytes := text (bytesOf key) ++ byteOf ':' :: value

/-- The members of an object. -/
def object (members : List (String × Bytes)) : Bytes :=
  0x7b :: (separated (members.map fun m => member m.1 m.2) ++ [0x7d])

/-- The front of an object that goes on. -/
def opened (members : List (String × Bytes)) : Bytes :=
  0x7b :: separated (members.map fun m => member m.1 m.2)

/-- The last member of an object, and its end. -/
def closing (key : String) (value : Bytes) : Bytes := byteOf ',' :: (member key value ++ [0x7d])

/-- An object may be written in two parts. -/
theorem object_concat (first : String × Bytes) (members : List (String × Bytes)) (key : String)
    (value : Bytes) : object (first :: (members ++ [(key, value)])) =
      opened (first :: members) ++ closing key value := by
  have hseparated : ∀ (front : Bytes) (elements : List Bytes) (last : Bytes),
      separated (front :: (elements ++ [last])) =
        separated (front :: elements) ++ byteOf ',' :: last := by
    intro front elements last
    induction elements generalizing front with
    | nil => simp [separated]
    | cons element elements ih =>
      have hrest := ih element
      simp only [separated, List.cons_append, List.intersperse_cons_cons, List.flatten_cons,
        List.append_assoc] at hrest ⊢
      rw [hrest]
  unfold object opened closing
  rw [List.map_cons, List.map_append, List.map_singleton, hseparated]
  simp

theorem opened_ne_nil (members : List (String × Bytes)) : opened members ≠ [] := by
  unfold opened
  simp

/-- A text of the source. -/
def string (s : String) : Bytes := text (bytesOf s)

/-- A digest in hexadecimal. -/
def digest (d : Digest) : Bytes := text (hexDigits 16 d.hi.toNat ++ hexDigits 16 d.lo.toNat)

/-- A list of identities. -/
def ids (list : List ResourceId) : Bytes := array (list.map text)

end Json

/-! ## The names of enumerations -/

def EffectState.token : EffectState → String
  | .notRequested => "not_requested"
  | .submitted => "submitted"
  | .acknowledged => "acknowledged"
  | .verifiedApplied => "verified_applied"
  | .verifiedReleased => "verified_released"
  | .failed => "failed"
  | .ambiguous => "ambiguous"
  | .fenced => "fenced"
  | .superseded => "superseded"

def InclusionReason.token : InclusionReason → String
  | .failureSource => "failure_source"
  | .cutVertexOnProvenPath => "cut_vertex_on_proven_path"
  | .cutVertexOnUnknownPath => "cut_vertex_on_unknown_path"
  | .policyMandatedSource => "policy_mandated_source"
  | .protectedObligationIsolation => "protected_obligation_isolation"
  | .sharedRiskDomainFence => "shared_risk_domain_fence"

def EvidenceState.token : EvidenceState → String
  | .present => "present"
  | .absent => "absent"
  | .unknown => "unknown"

def ContainmentClaim.token : ContainmentClaim → String
  | .provenContainment => "proven_containment"
  | .provenFeasibleNotMinimal => "proven_feasible_not_minimal"
  | .indeterminate => "indeterminate"
  | .provenInfeasible => "proven_infeasible"
  | .invalid => "invalid"
  | .unsupported => "unsupported"

def FeasibilityStatus.token : FeasibilityStatus → String
  | .provenFeasible => "proven_feasible"
  | .provenInfeasible => "proven_infeasible"
  | .unknown => "unknown"

def OptimalityStatus.token : OptimalityStatus → String
  | .provenOptimal => "proven_optimal"
  | .boundedNotProven => "bounded_not_proven"
  | .notAttempted => "not_attempted"
  | .notApplicable => "not_applicable"

def EvidenceCurrency.token : EvidenceCurrency → String
  | .current => "current"
  | .incompleteFrontier => "incomplete_frontier"
  | .stale => "stale"
  | .conflicting => "conflicting"

def TransitionStatus.token : TransitionStatus → String
  | .accepted => "accepted"
  | .denied => "denied"
  | .indeterminate => "indeterminate"
  | .stale => "stale"
  | .invalid => "invalid"

def StatusCode.token : StatusCode → String
  | .ok => "ok"
  | .invalidArgument => "invalid_argument"
  | .notFound => "not_found"
  | .alreadyExists => "already_exists"
  | .unknown => "unknown"
  | .staleGeneration => "stale_generation"
  | .conflict => "conflict"
  | .unsupported => "unsupported"
  | .limitExceeded => "limit_exceeded"
  | .exhausted => "exhausted"
  | .denied => "denied"
  | .unauthorized => "unauthorized"
  | .fenced => "fenced"
  | .corrupt => "corrupt"
  | .versionUnsupported => "version_unsupported"
  | .sequenceRegression => "sequence_regression"
  | .trailingGarbage => "trailing_garbage"
  | .protocolViolation => "protocol_violation"
  | .ioError => "io_error"
  | .interrupted => "interrupted"
  | .ambiguous => "ambiguous"
  | .internal => "internal"

/-- The reason codes with their names. -/
def reasonTokens : List (UInt16 × String) :=
  [(0, "none"), (1, "failure_source_contained"), (2, "cut_vertex_on_proven_path"),
    (3, "cut_vertex_on_unknown_path"), (4, "protected_obligation_included"),
    (5, "shared_risk_domain_fence"), (6, "policy_mandated_inclusion"),
    (10, "unknown_edges_present"), (11, "incomplete_adjacency_on_frontier"), (12, "evidence_stale"),
    (13, "evidence_conflicting"), (14, "evidence_generation_regressed"),
    (15, "adjacency_completeness_unknown"), (20, "optimality_proven"), (21, "feasibility_proven"),
    (22, "search_limit_reached"), (23, "infeasible_certificate_ineligible_path"),
    (24, "infeasible_by_exhaustive_search"), (25, "no_feasible_solution_found"),
    (26, "bounded_solution_not_minimal"), (27, "heuristic_construction_used"),
    (28, "local_minimality_restored"), (30, "topology_empty"), (31, "no_failure_sources"),
    (32, "no_protected_obligations"), (33, "source_not_containable"),
    (34, "protected_obligation_not_containable"), (35, "weight_budget_exceeded"),
    (36, "member_budget_exceeded"), (37, "instance_reduced"),
    (38, "failure_source_not_in_topology"), (39, "evidence_not_confirmed_since_restart"),
    (40, "authority_validated"), (41, "authority_stale_epoch"), (42, "authority_stale_boot"),
    (43, "authority_stale_policy"), (44, "authority_stale_topology"),
    (45, "authority_stale_evidence"), (46, "authority_fenced"), (47, "authorization_required"),
    (50, "apply_submitted"), (51, "apply_acknowledged"), (52, "effect_verified"),
    (53, "effect_ambiguous"), (54, "effect_not_applied"),
    (55, "effect_verification_digest_mismatch"), (56, "duplicate_completion_rejected"),
    (57, "attempt_fenced_by_restart"), (58, "attempt_sequence_regressed"),
    (59, "applier_epoch_stale"), (70, "transition_accepted"),
    (71, "transition_denied_unverified_effect"), (72, "transition_denied_active_failures"),
    (73, "transition_stale_generation"), (74, "transition_superseded_by_newer_plan"),
    (75, "transition_release_requires_empty_boundary"), (76, "transition_contract_not_a_subset"),
    (77, "transition_expand_not_a_superset"), (78, "transition_superseded"),
    (90, "store_recovered"), (91, "torn_tail_recovered"), (92, "store_refused_corruption"),
    (93, "store_version_unsupported"), (94, "restart_epoch_advanced"),
    (95, "pre_restart_attempts_fenced"), (96, "pre_restart_leases_fenced"),
    (97, "snapshot_committed"), (98, "evidence_freshness_not_restored")]

def ReasonCode.token (code : ReasonCode) : String :=
  ((reasonTokens.find? fun entry => entry.1 == code.value).map Prod.snd).getD "unrecognised_reason"

/-! ## Documents -/

/-- What a startup reports. -/
structure StartupReport where
  fresh : Bool := false
  recovered : Bool := false
  torn_tail_recovered : Bool := false
  torn_tail_bytes : UInt64 := 0
  replayed_records : ℕ := 0
  skipped_records : ℕ := 0
  fenced_attempts : ℕ := 0
  fenced_authorizations : ℕ := 0
  restored_plans : ℕ := 0
  restored_detections : ℕ := 0
  epoch : CoordinatorEpoch := 0
  boot : BootIdentity := ⟨0, 0⟩
  topology : TopologyGeneration := 0
  policy : PolicyGeneration := 0
  last_sequence : Sequence := 0
  snapshot_sequence : SnapshotSequence := 0
  wal_segment : SnapshotSequence := 0
  explanation : Explanation := .empty

/-- What a runtime counts. -/
structure RuntimeStats where
  detections_accepted : UInt64 := 0
  detections_unchanged : UInt64 := 0
  detections_rejected : UInt64 := 0
  plans_computed : UInt64 := 0
  plans_rejected : UInt64 := 0
  transitions_accepted : UInt64 := 0
  transitions_denied : UInt64 := 0
  apply_attempts : UInt64 := 0
  acknowledgements : UInt64 := 0
  verifications : UInt64 := 0
  duplicate_completions_rejected : UInt64 := 0
  authority_rejections : UInt64 := 0
  durable_commits : UInt64 := 0
  snapshot_commits : UInt64 := 0

/-- An item of an explanation, as attempts, decisions and startups show it. -/
def ExplanationItem.toJson (item : ExplanationItem) : Bytes :=
  Json.object [("code", Json.string item.code.token), ("subject", Json.text (item.subject.getD [])),
    ("value", Json.number item.value), ("text", Json.text item.text)]

/-- An item of an explanation, as plans show it. -/
def ExplanationItem.toPlanJson (item : ExplanationItem) : Bytes :=
  Json.object [("code", Json.string item.code.token), ("subject", Json.text (item.subject.getD [])),
    ("has_subject", Json.flag item.subject.isSome), ("value", Json.number item.value),
    ("has_value", Json.flag item.has_value), ("text", Json.text item.text)]

/-- The members that name a process. -/
def bootMembers (boot : BootIdentity) : List (String × Bytes) :=
  [("boot_id", Json.number boot.id), ("boot_pid", Json.number boot.process_id.toUInt64)]

def AuthorityVector.toJson (authority : AuthorityVector) : Bytes :=
  Json.object ([("epoch", Json.number authority.epoch)] ++ bootMembers authority.boot ++
    [("policy_generation", Json.number authority.policy),
      ("topology_generation", Json.number authority.topology),
      ("evidence_revision", Json.number authority.evidence_revision),
      ("issued_sequence", Json.number authority.issued_sequence),
      ("authority_digest", Json.digest authority.digest)])

def StartupReport.toJson (report : StartupReport) : Bytes :=
  Json.object ([("fresh", Json.flag report.fresh), ("recovered", Json.flag report.recovered),
    ("torn_tail_recovered", Json.flag report.torn_tail_recovered),
    ("torn_tail_bytes", Json.number report.torn_tail_bytes),
    ("replayed_records", Json.count report.replayed_records),
    ("skipped_records", Json.count report.skipped_records),
    ("fenced_attempts", Json.count report.fenced_attempts),
    ("fenced_authorizations", Json.count report.fenced_authorizations),
    ("restored_plans", Json.count report.restored_plans),
    ("restored_detections", Json.count report.restored_detections),
    ("epoch", Json.number report.epoch)] ++ bootMembers report.boot ++
    [("topology_generation", Json.number report.topology),
      ("policy_generation", Json.number report.policy),
      ("last_sequence", Json.number report.last_sequence),
      ("snapshot_sequence", Json.number report.snapshot_sequence),
      ("wal_segment", Json.number report.wal_segment),
      ("explanation", Json.array (report.explanation.items.map ExplanationItem.toJson))])

def RuntimeStats.toJson (stats : RuntimeStats) : Bytes :=
  Json.object [("detections_accepted", Json.number stats.detections_accepted),
    ("detections_unchanged", Json.number stats.detections_unchanged),
    ("detections_rejected", Json.number stats.detections_rejected),
    ("plans_computed", Json.number stats.plans_computed),
    ("plans_rejected", Json.number stats.plans_rejected),
    ("transitions_accepted", Json.number stats.transitions_accepted),
    ("transitions_denied", Json.number stats.transitions_denied),
    ("apply_attempts", Json.number stats.apply_attempts),
    ("acknowledgements", Json.number stats.acknowledgements),
    ("verifications", Json.number stats.verifications),
    ("duplicate_completions_rejected", Json.number stats.duplicate_completions_rejected),
    ("authority_rejections", Json.number stats.authority_rejections),
    ("durable_commits", Json.number stats.durable_commits),
    ("snapshot_commits", Json.number stats.snapshot_commits)]

def AuthorizationRecord.toJson (authorization : AuthorizationRecord) : Bytes :=
  Json.object ([("authorization_id", Json.number authorization.id),
    ("issued_sequence", Json.number authorization.issued_sequence),
    ("issued_at_millis", Json.number authorization.issued_at_millis),
    ("expires_at_millis", Json.number authorization.expires_at_millis),
    ("allows_apply", Json.flag authorization.allows_apply),
    ("epoch", Json.number authorization.authority.epoch)] ++
    bootMembers authorization.authority.boot ++
    [("policy_generation", Json.number authorization.authority.policy),
      ("topology_generation", Json.number authorization.authority.topology),
      ("evidence_revision", Json.number authorization.authority.evidence_revision),
      ("evidence_digest", Json.digest authorization.authority.evidence_digest),
      ("authority_digest", Json.digest authorization.authority.digest)])

def ApplyAttempt.toJson (attempt : ApplyAttempt) : Bytes :=
  Json.object ([("plan_generation", Json.number attempt.id.plan),
    ("attempt_sequence", Json.number attempt.id.sequence),
    ("state", Json.string attempt.state.token),
    ("plan_digest", Json.digest attempt.plan_digest),
    ("boundary_digest", Json.digest attempt.boundary_digest),
    ("boundary_generation", Json.number attempt.boundary_generation),
    ("epoch", Json.number attempt.epoch)] ++ bootMembers attempt.boot ++
    [("submitted_sequence", Json.number attempt.submitted_sequence),
      ("applier_epoch", Json.number attempt.applier_epoch),
      ("applier_boot_id", Json.number attempt.applier_boot.id),
      ("applier_boot_pid", Json.number attempt.applier_boot.process_id.toUInt64),
      ("observed_boundary_digest", Json.digest attempt.observed_boundary_digest),
      ("submitted_at_millis", Json.number attempt.submitted_at_millis),
      ("acknowledged_at_millis", Json.number attempt.acknowledged_at_millis),
      ("verified_at_millis", Json.number attempt.verified_at_millis),
      ("explanation", Json.array (attempt.explanation.items.map ExplanationItem.toJson))])

def BoundaryMember.toJson (member : BoundaryMember) : Bytes :=
  Json.object [("resource", Json.text member.resource),
    ("reason", Json.string member.reason.token),
    ("protected_obligation", Json.flag member.protected_obligation),
    ("weight", Json.number member.weight),
    ("witness_uses_unknown", Json.flag member.witness_uses_unknown),
    ("witness_path", Json.ids member.witness_path)]

namespace ContainmentBoundary

/-- The members that are protected obligations. -/
def protectedMemberCount (b : ContainmentBoundary) : ℕ :=
  b.members.countP BoundaryMember.protected_obligation

def toJson (b : ContainmentBoundary) : Bytes :=
  Json.object [("generation", Json.number b.generation), ("digest", Json.digest b.digest),
    ("member_count", Json.count b.members.length), ("total_weight", Json.number b.totalWeight),
    ("members", Json.array (b.members.map BoundaryMember.toJson))]

end ContainmentBoundary

def SearchCounters.toJson (counters : SearchCounters) : Bytes :=
  Json.object [("candidate_nodes", Json.number counters.candidate_nodes),
    ("explored_nodes", Json.number counters.explored_nodes),
    ("pruned_branches", Json.number counters.pruned_branches),
    ("residual_paths_checked", Json.number counters.residual_paths_checked),
    ("budget", Json.number counters.budget),
    ("budget_exhausted", Json.flag counters.budget_exhausted),
    ("heuristic_used", Json.flag counters.heuristic_used)]

def ContainmentPlan.toJson (plan : ContainmentPlan) : Bytes :=
  Json.object [("plan_generation", Json.number plan.generation),
    ("claim", Json.string plan.claim.token),
    ("feasibility", Json.string plan.feasibility.token),
    ("optimality", Json.string plan.optimality.token),
    ("evidence_currency", Json.string plan.currency.token),
    ("plan_digest", Json.digest plan.digest),
    ("topology_digest", Json.digest plan.topology_digest),
    ("policy_digest", Json.digest plan.policy_digest),
    ("evidence_digest", Json.digest plan.evidence_digest),
    ("instance_digest", Json.digest plan.instance_digest),
    ("authority", plan.authority.toJson),
    ("failure_sources", Json.ids plan.failure_sources),
    ("protected_obligations", Json.ids plan.protected_obligations),
    ("uncontainable_sources", Json.ids plan.uncontainable_sources),
    ("proven_necessary_members", Json.ids plan.proven_necessary_members),
    ("indeterminate_necessity", Json.ids plan.indeterminate_necessity),
    ("total_weight", Json.number plan.total_weight),
    ("member_count", Json.number plan.member_count),
    ("counters", plan.counters.toJson),
    ("infeasibility_witness", Json.object [("present", Json.flag plan.infeasibility.present),
      ("path", Json.ids plan.infeasibility.path)]),
    ("boundary", Json.object [("generation", Json.number plan.boundary.generation),
      ("digest", Json.digest plan.boundary.digest),
      ("member_count", Json.count plan.boundary.members.length),
      ("total_weight", Json.number plan.boundary.totalWeight),
      ("protected_member_count", Json.count plan.boundary.protectedMemberCount),
      ("members", Json.array (plan.boundary.members.map BoundaryMember.toJson))]),
    ("explanation", Json.array (plan.explanation.items.map ExplanationItem.toPlanJson)),
    ("explanation_truncated", Json.flag plan.explanation.truncated)]

namespace TransitionDecision

/-- The digest over the content of a decision. -/
def computeDigest (decision : TransitionDecision) : Digest :=
  digestOf (Write.u64 decision.generation ++ Write.u8 decision.kind.toByte ++
    Write.u8 decision.status.toByte ++ Write.u16 decision.code.toWord ++
    Write.u64 decision.from_generation ++ Write.u64 decision.to_generation ++
    Write.boolean decision.to_released ++ Write.digest decision.from_digest ++
    Write.digest decision.to_digest ++ Write.digest decision.plan_digest ++
    Write.u8 decision.required_effect_state.toByte ++
    Write.u8 decision.observed_effect_state.toByte ++ Write.boolean decision.effect_verified ++
    Write.u64 decision.epoch ++ Write.u64 decision.boot.id ++ Write.u32 decision.boot.process_id ++
    Write.u64 decision.sequence ++ Write.size decision.explanation.items.length ++
    decision.explanation.items.flatMap fun item => Write.u16 item.code.value ++
      Write.blob (item.subject.getD []) ++ Write.u64 item.value ++ Write.blob item.text)

def toJson (decision : TransitionDecision) : Bytes :=
  Json.object ([("transition_generation", Json.number decision.generation),
    ("kind", Json.string decision.kind.token), ("status", Json.string decision.status.token),
    ("code", Json.string decision.code.token),
    ("from_boundary_generation", Json.number decision.from_generation),
    ("to_boundary_generation", Json.number decision.to_generation),
    ("to_released", Json.flag decision.to_released),
    ("from_digest", Json.digest decision.from_digest),
    ("to_digest", Json.digest decision.to_digest),
    ("plan_digest", Json.digest decision.plan_digest),
    ("required_effect_state", Json.string decision.required_effect_state.token),
    ("observed_effect_state", Json.string decision.observed_effect_state.token),
    ("effect_verified", Json.flag decision.effect_verified),
    ("epoch", Json.number decision.epoch)] ++ bootMembers decision.boot ++
    [("sequence", Json.number decision.sequence),
      ("decision_digest", Json.digest decision.computeDigest),
      ("explanation", Json.array (decision.explanation.items.map ExplanationItem.toJson))])

end TransitionDecision

def DetectionRecord.toJson (record : DetectionRecord) : Bytes :=
  Json.object [("resource", Json.text record.resource),
    ("state", Json.string record.state.token), ("generation", Json.number record.generation),
    ("sequence", Json.number record.sequence),
    ("record_digest", Json.digest record.record_digest)]

def EvidenceEntry.toJson (entry : EvidenceEntry) : Bytes :=
  Json.object [("resource", Json.text entry.resource), ("state", Json.string entry.state.token),
    ("generation", Json.number entry.generation),
    ("source_digest", Json.digest entry.source_digest)]

end Fcfn
