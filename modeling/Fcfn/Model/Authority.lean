import Fcfn.Core.Canonical

/-!
# Authority

The vector of generations that a decision is bound to, and its comparison with the current one. -/

namespace Fcfn

open Words Codec

/-- Complete binding of the authority that made a decision legal. -/
structure AuthorityVector where
  epoch : CoordinatorEpoch := 0
  boot : BootIdentity := ⟨0, 0⟩
  policy : PolicyGeneration := 0
  topology : TopologyGeneration := 0
  evidence_revision : EvidenceRevision := 0
  evidence_digest : Digest := Digest.zero
  issued_sequence : Sequence := 0
  deriving DecidableEq, Repr

/-- Result of validating a presented vector against current authority. -/
inductive AuthorityState
  | valid | staleEpoch | staleBoot | stalePolicy | staleTopology | staleEvidence | fenced
  deriving DecidableEq, Repr

/-- The status code of a check. -/
def AuthorityState.statusCode : AuthorityState → StatusCode
  | .valid => .ok
  | .staleEpoch | .staleBoot | .stalePolicy | .staleTopology | .staleEvidence => .staleGeneration
  | .fenced => .fenced

/-- The reason text of a check. -/
def AuthorityState.reason : AuthorityState → String
  | .valid => "authority_validated"
  | .staleEpoch => "authority_stale_epoch"
  | .staleBoot => "authority_stale_boot"
  | .stalePolicy => "authority_stale_policy"
  | .staleTopology => "authority_stale_topology"
  | .staleEvidence => "authority_stale_evidence"
  | .fenced => "authority_fenced"

/-- Validate a presented vector against the current one, whose sequence is not compared. -/
def validateAuthority (presented current : AuthorityVector) : AuthorityState :=
  if presented.boot ≠ current.boot then .fenced
  else if presented.epoch ≠ current.epoch then .staleEpoch
  else if presented.policy ≠ current.policy then .stalePolicy
  else if presented.topology ≠ current.topology then .staleTopology
  else if presented.evidence_revision ≠ current.evidence_revision ∨
      presented.evidence_digest ≠ current.evidence_digest then .staleEvidence
  else .valid

/-- Two vectors that agree up to the sequence they were issued at. -/
structure AuthorityVector.Agrees (presented current : AuthorityVector) : Prop where
  epoch : presented.epoch = current.epoch
  boot : presented.boot = current.boot
  policy : presented.policy = current.policy
  topology : presented.topology = current.topology
  evidence_revision : presented.evidence_revision = current.evidence_revision
  evidence_digest : presented.evidence_digest = current.evidence_digest

/-- A presented vector is valid exactly when it agrees with the current one. -/
theorem validateAuthority_eq_valid {presented current : AuthorityVector} :
    validateAuthority presented current = .valid ↔ presented.Agrees current := by
  constructor
  · intro h
    unfold validateAuthority at h
    split at h
    · exact absurd h (by simp)
    split at h
    · exact absurd h (by simp)
    split at h
    · exact absurd h (by simp)
    split at h
    · exact absurd h (by simp)
    split at h
    · exact absurd h (by simp)
    · rename_i hboot hepoch hpolicy htopology hevidence
      simp only [not_or, not_not, ne_eq] at *
      exact ⟨hepoch, hboot, hpolicy, htopology, hevidence.1, hevidence.2⟩
  · rintro ⟨h1, h2, h3, h4, h5, h6⟩
    simp [validateAuthority, h1, h2, h3, h4, h5, h6]

namespace AuthorityVector

/-- Canonical byte encoding. -/
def encode (v : AuthorityVector) : Bytes :=
  Write.u64 v.epoch ++ Write.u64 v.boot.id ++ Write.u32 v.boot.process_id ++ Write.u64 v.policy ++
    Write.u64 v.topology ++ Write.u64 v.evidence_revision ++ Write.digest v.evidence_digest ++
    Write.u64 v.issued_sequence

/-- Canonical digest. -/
def digest (v : AuthorityVector) : Digest := digestOf v.encode

/-- Read a vector. -/
def read : Read AuthorityVector := do
  let epoch ← Read.u64
  let boot_id ← Read.u64
  let process_id ← Read.u32
  let policy ← Read.u64
  let topology ← Read.u64
  let evidence_revision ← Read.u64
  let evidence_digest ← Read.digest
  let issued_sequence ← Read.u64
  return ⟨epoch, ⟨boot_id, process_id⟩, policy, topology, evidence_revision, evidence_digest,
    issued_sequence⟩

/-- Decode a canonical encoding. -/
def decode (bytes : Bytes) : Result AuthorityVector := Read.document read bytes

end AuthorityVector

/-- A vector is read back from its encoding. -/
theorem reads_authority (v : AuthorityVector) : Reads AuthorityVector.read v.encode v := by
  simp only [AuthorityVector.encode, List.append_assoc]
  refine (reads_u64 _).bind ((reads_u64 _).bind ((reads_u32 _).bind ((reads_u64 _).bind
    ((reads_u64 _).bind ((reads_u64 _).bind ((reads_digest _).bind ((reads_u64 _).bind_pure ?_)))))))
  exact Reads.pure _

/-- A vector is decoded from its encoding. -/
theorem AuthorityVector.decode_encode (v : AuthorityVector) : decode v.encode = .ok v := by
  rw [decode, Read.document]
  exact (reads_authority v).runAll _

end Fcfn
