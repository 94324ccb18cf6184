import Fcfn.Engine.ExactSpec
import Fcfn.Runtime.Snapshots

/-!
# Durable documents

Every document that the runtime saves is decoded from its encoding as it was: topologies, evidence,
boundaries, policies, authorities, plans, the three kinds of records and the state of a snapshot. A
document's identities are canonical, as those that the source parses are, and what the decoder
bounds is within the bounds. -/

namespace Fcfn

open Words Sorted

/-- Evidence is decoded as it was built. -/
theorem EvidenceVector.decode_of_build {entries : List EvidenceEntry} {v : EvidenceVector}
    (h : EvidenceVector.build entries = .ok v)
    (hcanonical : ∀ entry ∈ entries, isValidResourceId entry.resource = true) :
    EvidenceVector.decode v.encode = .ok v := by
  obtain ⟨hentries, hdigest⟩ := EvidenceVector.build_eq_ok h
  have hv : v.Canonical := by
    intro entry hentry
    rw [hentries, mem_sortBy] at hentry
    exact hcanonical entry hentry
  obtain ⟨v', hdecode, hentries', hdigest'⟩ := EvidenceVector.decode_encode hv
  have hsame : v' = v := by
    cases v
    cases v'
    simp only [EvidenceVector.encode] at hentries' hdigest hdigest'
    subst hentries'
    rw [EvidenceVector.mk.injEq]
    exact ⟨rfl, hdigest'.trans hdigest.symm⟩
  rw [hdecode, hsame]

/-- A boundary is decoded as it was created. -/
theorem ContainmentBoundary.decode_of_create {generation : BoundaryGeneration}
    {members : List BoundaryMember} {b : ContainmentBoundary}
    (h : ContainmentBoundary.create generation members = .ok b)
    (hcanonical : ∀ member ∈ members, ContainmentBoundary.Canonical member) :
    ContainmentBoundary.decode b.encode = .ok b := by
  obtain ⟨-, hmembers, hcreated⟩ := ContainmentBoundary.create_eq_ok h
  refine ContainmentBoundary.decode_encode hcreated.generation_ne_zero fun member hmember => ?_
  rw [hmembers, mem_sortBy] at hmember
  exact hcanonical member hmember

/-- Every durable document is decoded from its encoding as it was. -/
theorem documents_round_trip :
    (∀ spec t, Topology.build spec = .ok t → Topology.decode t.encode = .ok t) ∧
    (∀ entries v, EvidenceVector.build entries = .ok v →
      (∀ entry ∈ entries, isValidResourceId entry.resource = true) →
        EvidenceVector.decode v.encode = .ok v) ∧
    (∀ generation members b, ContainmentBoundary.create generation members = .ok b →
      (∀ member ∈ members, ContainmentBoundary.Canonical member) →
        ContainmentBoundary.decode b.encode = .ok b) ∧
    (∀ policy, validatePolicy policy = .ok () →
      ContainmentPolicy.decode policy.encode = .ok policy) ∧
    (∀ v : AuthorityVector, AuthorityVector.decode v.encode = .ok v) ∧
    (∀ plan : ContainmentPlan, plan.Decodable →
      plan.boundary.encode.length ≤ kMaxRecordPayloadBytes →
        ContainmentPlan.decode plan.encode = .ok plan) ∧
    (∀ attempt : ApplyAttempt, attempt.explanation.Canonical →
      decodeAttempt (encodeAttempt attempt) = .ok attempt) ∧
    (∀ decision : TransitionDecision, decision.explanation.Canonical →
      decodeTransition (encodeTransition decision) = .ok decision) ∧
    (∀ record : DetectionRecord, isValidResourceId record.resource = true →
      decodeDetection (encodeDetection record) = .ok record) ∧
    (∀ state : DurableState, state.Readable → state.Fits →
      decodeDurableState (encodeDurableState state) = .ok state) := by
  refine ⟨fun _ t _ => t.decode_encode, fun _ _ h => EvidenceVector.decode_of_build h,
    fun _ _ _ h => ContainmentBoundary.decode_of_create h, fun policy h => ?_,
    fun v => v.decode_encode, fun _ => ContainmentPlan.decode_encode_of_boundary,
    fun _ => decodeAttempt_encode, fun _ => decodeTransition_encode,
    fun _ => decodeDetection_encode, fun _ h hfits => hfits.decode_encode h⟩
  rw [policy.decode_encode, h]
  rfl

/-- The snapshot of a runtime on the chain that has seen its source fail twice. -/
theorem documents_round_trip_chain :
    let state : DurableState := {
      epoch := 2
      topology_bytes := chain.encode
      detections := [⟨bytesOf "s", .present, 1, Digest.zero, 1, ⟨7, 100⟩, 3, Digest.zero⟩,
        ⟨bytesOf "s", .present, 2, Digest.zero, 2, ⟨8, 101⟩, 9, Digest.zero⟩]
      fenced_boots := [7] }
    decodeDurableState (encodeDurableState state) = .ok state := by
  obtain ⟨-, -, -, -, -, -, -, -, -, hstate⟩ := documents_round_trip
  exact hstate _
    ⟨⟨by decide, by simp⟩, ⟨by decide, by simp⟩, ⟨by decide, by simp⟩,
      ⟨by decide, by decide⟩, by decide⟩
    ⟨by decide +kernel, by decide, by decide, by decide, by simp, by simp, by simp,
      by decide +kernel⟩

end Fcfn
