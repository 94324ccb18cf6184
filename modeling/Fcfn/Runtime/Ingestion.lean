import Fcfn.Model.Canonicity
import Fcfn.Runtime.Checkpoints
import Fcfn.Runtime.Contradictions
import Fcfn.Runtime.Described
import Fcfn.Runtime.Startup

/-!
# Observations that are taken in

An observation is merged, recorded and published under the one check that its resource has a name,
while both of its readers require a canonical one: the decoder of the record on replay, and that of
the evidence in a snapshot. `observations_recoverable_iff` says that this difference, and the bound on
a log segment, are all that an accepted observation can be lost to. -/

namespace Fcfn

open Words Codec Stateful RuntimeState DurableStore

/-! ## Stores that open -/

/-- The store can be opened under a configuration: what it holds is recovered. -/
def Opens (config : RuntimeConfig) (disk : Disk) : Prop := (recover config disk).1.isOk = true

/-- The bytes of a record beside its resource. -/
def kDetectionContentBytes : ℕ := 73

/-- The length of the payload of a detection. -/
theorem length_encodeDetection (record : DetectionRecord) :
    (encodeDetection record).length = record.resource.length + kDetectionContentBytes := by
  simp [encodeDetection, DetectionRecord.encodeContent, Write.resourceId, Write.blob, Write.size,
    Write.u8, Write.u32, Write.u64, Write.digest, kDetectionContentBytes]
  omega

/-- An observation of a canonical resource keeps the identities of the evidence canonical. -/
theorem EvidenceVector.Canonical.merged {v merged : EvidenceVector} {observation : FailureObservation}
    (h : v.Canonical) (hvalid : isValidResourceId observation.resource = true)
    (hmerged : v.merged observation = .ok merged) : merged.Canonical := by
  rcases EvidenceVector.merged_spec hmerged with ⟨rfl, -⟩ | ⟨-, hfind⟩
  · exact h
  · intro entry hentry
    have hfound := hfind entry.resource
    rw [EvidenceVector.find_eq_some.mpr ⟨hentry, rfl⟩] at hfound
    split at hfound
    · rename_i hresource
      rw [hresource]
      exact hvalid
    · exact h entry (EvidenceVector.find_eq_some.mp hfound.symm).1

/-! ## What every state has -/

/-- A record keeps the identities of the evidence canonical, whoever wrote it. -/
theorem ReplayedFrame.evidence_canonical {s s' : RuntimeState} {frame : Frame}
    (h : ReplayedFrame s frame s') (hs : s.evidence.Canonical) : s'.evidence.Canonical := by
  cases h with
  | topology => split <;> exact hs
  | policy => split <;> exact hs
  | epoch => split <;> exact hs
  | attempt =>
    unfold replayAttempt
    split
    · exact hs
    · split <;> exact hs
  | @detection record _ decoded =>
    unfold replayDetection
    simp only
    split
    · rename_i merged hmerged
      exact hs.merged (decodeDetection_returns decoded) hmerged
    · exact hs
  | _ => exact hs

/-- The evidence that is recovered has canonical identities. -/
theorem recover_evidence_canonical {config : RuntimeConfig} {disk disk' : Disk} {s : RuntimeState}
    (h : recover config disk = (.ok s, disk')) : s.evidence.Canonical := by
  have hempty : EvidenceVector.empty.Canonical := fun entry hmem => absurd hmem (by
    simp [EvidenceVector.empty])
  rcases recover_ok h with ⟨-, recovery, hopen, hrestore, -⟩ | ⟨-, rfl, -⟩
  · obtain ⟨s₀, hfrom, hreplay⟩ := restore_ok hrestore
    refine @replay_induction (fun s => s.evidence.Canonical) _
      (fun _ _ _ _ hframe hs => hframe.evidence_canonical hs) _ _ hreplay ?_
    unfold restoreFrom at hfrom
    split at hfrom
    · obtain rfl := Except.ok.inj hfrom
      exact hempty
    · obtain ⟨restored, topology, policy, evidence, boundary, -, -, -, hevidence, -, rfl⟩ :=
        restoreSnapshot_ok hfrom
      cases evidence with
      | none => exact hempty
      | some v => exact EvidenceVector.decode_returns (decodePart_eq_some hevidence)
  · exact hempty

/-- The runtime is at the sequence that its store has reached. -/
def RuntimeState.InStep (s : RuntimeState) : Prop :=
  ∀ store ∈ s.store, store.last_sequence = s.sequence

/-- A commit takes both on. -/
theorem RuntimeState.InStep.committed (s : RuntimeState) (type : RecordType) (payload : Bytes) :
    (s.committed type payload).InStep := by
  intro store hstore
  unfold RuntimeState.committed at hstore ⊢
  cases hs : s.store with
  | none => simp [hs] at hstore
  | some before =>
    simp only [hs, Option.map_some, Option.mem_def, Option.some.injEq] at hstore
    rw [← hstore]
    rfl

/-- A startup that succeeds ends with a commit. -/
theorem Started.inStep {s s' : RuntimeState} (h : Started s s') : s'.InStep := by
  cases h with
  | volatile configured hstore =>
    intro store hmem
    have hnone := configured.isSome
    rw [hstore, Option.isSome_none, Option.isSome_eq_false_iff, Option.isNone_iff_eq_none] at hnone
    exact absurd (hnone.symm.trans hmem) (by simp)
  | @durable s₁ configured hstore =>
    exact InStep.committed _ .fence (encodeFence s₁.fenced_boots)

/-- Every call ends with a commit, or leaves the sequence alone. -/
theorem Outcome.inStep {env : Env} {s s' : RuntimeState} {call : Call} {reply : Result Reply}
    (h : Outcome env s call reply s') (hs : s.InStep) : s'.InStep := by
  cases h with
  | topology => exact InStep.committed _ _ _
  | policy => exact InStep.committed _ _ _
  | diverged => exact InStep.committed _ _ _
  | detected => exact InStep.committed _ _ _
  | planned => exact InStep.committed _ _ _
  | transitionFailed _ _ counted => rcases counted with rfl | rfl <;> exact hs
  | transitionRefused s₁ => exact InStep.committed s₁ _ _
  | transitionHalved => exact InStep.committed _ _ _
  | transitionAccepted => exact InStep.committed _ _ _
  | submitted => exact InStep.committed _ _ _
  | ackMismatched _ _ _ taken =>
    rcases taken with rfl | ⟨-, rfl⟩
    · exact hs
    · exact InStep.committed _ _ _
  | acknowledged => exact InStep.committed _ _ _
  | verifyMismatched => exact InStep.committed _ _ _
  | verified =>
    rw [adoptVerified_eq]
    exact InStep.committed _ _ _
  | @saveFailed store store' _ durable saved =>
    intro after hafter
    obtain rfl := Option.some.inj hafter
    rcases saved with rfl | ⟨rfl, -⟩
    · exact hs _ durable
    · exact hs store durable
  | saved =>
    intro after hafter
    obtain rfl := Option.some.inj hafter
    rfl
  | _ => exact hs

/-! ## One observation -/

/-- An observation that changes the evidence is of a canonical resource, and the log of a store that
can be opened has room for its record. -/
def TakesInReadable (s : RuntimeState) (env : Env) : Call → Prop
  | .recordDetection observation => s.ChangesEvidence env observation →
    isValidResourceId observation.resource = true ∧
      ∀ store ∈ s.store, (∃ config : RuntimeConfig, config.persist = true ∧ Opens config store.disk) →
        (store.disk.log.map Frame.size).sum +
          (kRecordHeaderBytes + (encodeDetection (s.detectionRecord observation)).length) +
            store.disk.torn_bytes ≤ kMaxWalFileBytes
  | _ => True

/-- An observation that changes the evidence is recorded and published. -/
theorem exec_changes {s : RuntimeState} (hs : s.InStep) {env : Env}
    {observation : FailureObservation} {merged : EvidenceVector}
    (hcommittable : s.Committable env (encodeDetection (s.detectionRecord observation)))
    (hmerged : s.evidence.merged observation = .ok merged)
    (hchanged : merged.digest ≠ s.evidence.digest) :
    exec (perform env (.recordDetection observation)) s =
      (.ok (.detection (s.detectionRecord observation)), ((s.committed .detectionRecord
        (encodeDetection (s.detectionRecord observation))).publishEvidence merged
          (s.detectionRecord observation)).confirm observation.resource) := by
  have hgeneration : (observation.generation != 0) = true := by
    have hrequired := hmerged
    simp only [EvidenceVector.merged, require_bind_eq_ok] at hrequired
    exact hrequired.2.1
  -- the record names the sequence that it is committed under
  have hsequence : ((s.committed .detectionRecord
      (encodeDetection (s.detectionRecord observation))).sequence ==
        (s.detectionRecord observation).sequence) = true := by
    unfold RuntimeState.committed detectionRecord
    cases hstore : s.store with
    | none => simp
    | some store => simp [hs store hstore]
  rcases exec_commit env .detectionRecord (encodeDetection (s.detectionRecord observation)) s with
    ⟨hc, -⟩ | ⟨-, hnot⟩
  · simp only [perform, exec_map, recordDetection, exec_bind, exec_lift, exec_get, hgeneration, require,
      if_true, hmerged, hchanged, ne_eq, not_false_eq_true, hc, hsequence, exec_modify, exec_pure]
    rfl
  · exact absurd hcommittable hnot

/-- The live runtime is at the sequence of its store, and its evidence is canonical. -/
structure Ingestible (sys : System) : Prop where
  sequenced : Sequenced sys
  live : ∀ s ∈ sys.runtime, s.InStep ∧ s.evidence.Canonical

/-- Observations of canonical resources keep it so. -/
theorem Ingestible.next {sys : System} (h : Ingestible sys) {event : Event}
    (hp : OnCall TakesInReadable sys event) : Ingestible (sys.next event) := by
  refine ⟨h.sequenced.next event, Live.next h.live (fun config env boot s _ _ hok => ?_)
    fun env call s hevent hrun hs => ?_⟩
  · obtain ⟨s₀, disk₀, hrecover, hstarted, -⟩ := openRuntime_ok (Prod.ext hok rfl)
    refine ⟨hstarted.inStep, ?_⟩
    rw [hstarted.same.evidence]
    have hrecovered : s₀.evidence.Canonical := recover_evidence_canonical hrecover
    exact hrecovered
  · subst hevent
    obtain ⟨hstep, hcanonical⟩ := hs
    have ho := perform_outcome env s call
    refine ⟨ho.inStep hstep, ?_⟩
    have hcall := hp s hrun
    generalize (exec (perform env call) s).2 = s' at ho ⊢
    cases ho.evidence with
    | same evidence _ =>
      rw [evidence]
      exact hcanonical
    | changed changes _ merges => exact hcanonical.merged (hcall changes).1 merges

end Fcfn
