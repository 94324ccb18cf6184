import Fcfn.Runtime.Described
import Fcfn.Runtime.Ingestion

/-!
# The governed inputs

The topology, the policy and the evidence are published by three calls, each with a record of its own.
A snapshot has all three, and the records after it are merged again by the replay. `Stores` says which
inputs a store stores under a configuration: the files determine them (`Stores.unique`), and every
incident changes them as it changes those of the live runtime (`InputsKept.step`). One thing is lost:
the evidence vector that a runtime starts with has no digest, and a snapshot gives it one. -/

namespace Fcfn

open Words Stateful RuntimeState DurableStore Tables

/-- What a runtime governs by. -/
structure Inputs where
  topology : Option Topology
  policy : ContainmentPolicy
  evidence : EvidenceVector
  deriving DecidableEq

namespace RuntimeState

/-- The inputs in force. -/
def inputs (s : RuntimeState) : Inputs := ⟨s.topology, s.policy, s.evidence⟩

end RuntimeState

/-! ## Evidence -/

namespace EvidenceVector

/-- A vector that was built has the digest of its entries. -/
def Built (v : EvidenceVector) : Prop := v.digest = digestOf (encodeEntries v.entries)

/-- Vectors that were built are the same when their entries are. -/
theorem Built.ext {v w : EvidenceVector} (hv : v.Built) (hw : w.Built)
    (h : v.entries = w.entries) : v = w := by
  obtain ⟨entries, digest, valid⟩ := v
  obtain ⟨entries', digest', valid'⟩ := w
  obtain rfl : entries = entries' := h
  obtain rfl : digest = digest' := Eq.trans hv (Eq.symm hw)
  rfl

/-- A vector is the one that a runtime starts with, or was built. -/
theorem eq_empty_or_built (v : EvidenceVector) : v = empty ∨ v.Built := by
  obtain ⟨entries, digest, valid⟩ := v
  rcases valid.digest_eq with hbuilt | ⟨rfl, rfl⟩
  · exact Or.inr hbuilt
  · exact Or.inl rfl

/-- The vector that a runtime starts with was not built. -/
theorem empty_not_built : ¬ empty.Built := by
  unfold Built
  decide +kernel

/-- An observation that changes a vector changes every vector with its entries in the same way, and
what it leads to was built. -/
theorem merged_congr {v w merged : EvidenceVector} {observation : FailureObservation}
    (hentries : w.entries = v.entries) (h : v.merged observation = .ok merged)
    (hchanged : merged ≠ v) : w.merged observation = .ok merged ∧ merged.Built := by
  have hfind : w.find observation.resource = v.find observation.resource := by
    unfold find
    rw [hentries]
  -- what an observation does depends on the entry of its resource and on the entries alone
  unfold EvidenceVector.merged at h ⊢
  simp only [require_bind_eq_ok] at h ⊢
  obtain ⟨hresource, hgeneration, h⟩ := h
  rw [hfind, hentries]
  refine ⟨⟨hresource, hgeneration, ?_⟩, ?_⟩
  · split at h
    · exact h
    · split at h
      · exact absurd h (by simp [fail])
      · split at h
        · split at h
          · exact absurd h (by simp [fail])
          · exact absurd (Except.ok.inj h).symm hchanged
        · rename_i hnewer hdiffers
          rw [if_neg hnewer, if_neg hdiffers]
          exact h
  · split at h
    · exact (build_eq_ok h).2
    · split at h
      · exact absurd h (by simp [fail])
      · split at h
        · split at h
          · exact absurd h (by simp [fail])
          · exact absurd (Except.ok.inj h).symm hchanged
        · exact (build_eq_ok h).2

/-- The encoding of a vector is decoded, if at all, as a vector of the same entries that was built. -/
theorem decode_recovers {v v' : EvidenceVector} (hlen : v.encode.length < 2 ^ 32)
    (h : decode v.encode = .ok v') : v'.entries = v.entries ∧ v'.Built := by
  obtain ⟨v'', hdecode, hentries, hdigest⟩ := decode_encode (canonical_of_decode hlen h)
  obtain rfl : v'' = v' := Except.ok.inj (hdecode.symm.trans h)
  refine ⟨hentries, ?_⟩
  unfold Built
  rw [hdigest, hentries]
  rfl

end EvidenceVector

/-! ## Replaying the inputs -/

namespace Inputs

/-- Take a topology in, when it is newer. -/
def takeTopology (inputs : Inputs) (t : Topology) : Inputs :=
  if inputs.topology.all fun current => current.generation < t.generation then
    { inputs with topology := some t }
  else inputs

/-- Take a policy in, when it is newer. -/
def takePolicy (inputs : Inputs) (policy : ContainmentPolicy) : Inputs :=
  if inputs.policy.generation < policy.generation then { inputs with policy := policy } else inputs

/-- Take an observation in, when the evidence does not refuse it. -/
def takeDetection (inputs : Inputs) (record : DetectionRecord) : Inputs :=
  { inputs with
    evidence := match inputs.evidence.merged ⟨record.resource, record.state, record.generation,
        record.source_digest⟩ with
      | .ok evidence => evidence
      | .error _ => inputs.evidence }

/-- What a record does to the inputs. -/
def replay (inputs : Inputs) (frame : Frame) : Option Inputs :=
  match frame.type with
  | .topologyDefinition => (Topology.decode frame.payload).toOption.map inputs.takeTopology
  | .policyDefinition => (ContainmentPolicy.decode frame.payload).toOption.map inputs.takePolicy
  | .detectionRecord | .evidenceReconfirmed =>
    (decodeDetection frame.payload).toOption.map inputs.takeDetection
  | _ => some inputs

end Inputs

/-- The kinds of record that publish an input. -/
def RecordType.publishes : RecordType → Bool
  | .topologyDefinition | .policyDefinition | .detectionRecord | .evidenceReconfirmed => true
  | _ => false

/-- Other records leave the inputs. -/
theorem Inputs.replay_quiet {inputs : Inputs} {frame : Frame} (h : frame.type.publishes = false) :
    inputs.replay frame = some inputs := by
  unfold Inputs.replay
  cases htype : frame.type <;> simp_all [RecordType.publishes]

/-- Replay changes the inputs by the record alone. -/
theorem ReplayedFrame.inputs {s s' : RuntimeState} {frame : Frame} (h : ReplayedFrame s frame s') :
    s.inputs.replay frame = some s'.inputs := by
  -- the records of other types leave the inputs
  have hquiet : s'.inputs = s.inputs → frame.type.publishes = false →
      s.inputs.replay frame = some s'.inputs := fun hsame htype => by
    rw [Inputs.replay_quiet htype, hsame]
  cases h with
  | topology type decoded =>
    unfold Inputs.replay
    rw [type]
    simp only [decoded, Except.toOption, Option.map_some, Inputs.takeTopology]
    unfold RuntimeState.inputs
    split <;> simp_all
  | policy type decoded =>
    unfold Inputs.replay
    rw [type]
    simp only [decoded, Except.toOption, Option.map_some, Inputs.takePolicy]
    unfold RuntimeState.inputs
    split <;> simp_all
  | detection type decoded =>
    unfold Inputs.replay
    rcases type with type | type <;>
    · rw [type]
      simp only [decoded, Except.toOption, Option.map_some]
      rfl
  | plan type => exact hquiet rfl (by rw [type]; rfl)
  | boundary type => exact hquiet rfl (by rw [type]; rfl)
  | transition type => exact hquiet rfl (by rw [type]; rfl)
  | fence type => exact hquiet rfl (by rw [type]; rfl)
  | epoch type =>
    refine hquiet ?_ (by rw [type]; rfl)
    split <;> rfl
  | attempt type =>
    refine hquiet ?_ (by rcases type with type | type | type <;> rw [type] <;> rfl)
    unfold replayAttempt
    split
    · rfl
    · split <;> rfl
  | other type =>
    exact hquiet rfl (by rcases type with type | type | type | type <;> rw [type] <;> rfl)

/-- Replaying a log changes the inputs by its records alone. -/
theorem replay_inputs {log : List Frame} {s s' : RuntimeState}
    (h : log.foldlM applyReplayedFrame s = .ok s') :
    log.foldlM Inputs.replay s.inputs = some s'.inputs := by
  induction log generalizing s with
  | nil =>
    obtain rfl := Except.ok.inj h
    rfl
  | cons frame log ih =>
    rw [List.foldlM_cons, bind_eq_ok] at h
    obtain ⟨s₁, hframe, hrest⟩ := h
    rw [List.foldlM_cons, (applyReplayedFrame_ok hframe).inputs]
    exact ih hrest

/-- What every record keeps of the inputs, replaying a log keeps. -/
theorem Inputs.replay_induction {P : Inputs → Prop} {log : List Frame}
    (hstep : ∀ inputs frame inputs', frame ∈ log → inputs.replay frame = some inputs' → P inputs →
      P inputs') {inputs inputs' : Inputs} (h : log.foldlM Inputs.replay inputs = some inputs')
    (hinputs : P inputs) : P inputs' := by
  induction log generalizing inputs with
  | nil =>
    obtain rfl := Option.some.inj h
    exact hinputs
  | cons frame log ih =>
    rw [List.foldlM_cons, Option.bind_eq_bind, Option.bind_eq_some_iff] at h
    obtain ⟨next, hframe, hrest⟩ := h
    exact ih (fun inputs f inputs' hf => hstep inputs f inputs' (List.mem_cons_of_mem _ hf)) hrest
      (hstep inputs frame next List.mem_cons_self hframe hinputs)

/-! ## What a store stores -/

/-- The inputs that a store stores under a configuration: those of its snapshot, with the records of its
log. -/
def Stores (config : RuntimeConfig) (disk : Disk) (inputs : Inputs) : Prop :=
  ∃ s₀, restoreFrom (RuntimeState.initial config) (snapshotPayload disk.snapshot) = .ok s₀ ∧
    disk.log.foldlM Inputs.replay s₀.inputs = some inputs

/-- A store stores one set of inputs. -/
theorem Stores.unique {config : RuntimeConfig} {disk : Disk} {inputs inputs' : Inputs}
    (h : Stores config disk inputs) (h' : Stores config disk inputs') : inputs' = inputs := by
  obtain ⟨s₀, hfrom, hreplay⟩ := h
  obtain ⟨s₁, hfrom', hreplay'⟩ := h'
  obtain rfl := Except.ok.inj (hfrom.symm.trans hfrom')
  exact Option.some.inj (hreplay'.symm.trans hreplay)

/-- Records that are appended are taken in after the others. -/
theorem Stores.append {config : RuntimeConfig} {disk disk' : Disk} {added : List Frame}
    (hsnapshot : disk'.snapshot = disk.snapshot) (hlog : disk'.log = disk.log ++ added)
    {inputs' : Inputs} : Stores config disk' inputs' ↔
      ∃ inputs, Stores config disk inputs ∧ added.foldlM Inputs.replay inputs = some inputs' := by
  unfold Stores
  rw [hsnapshot, hlog]
  simp only [List.foldlM_append, Option.bind_eq_bind, Option.bind_eq_some_iff]
  constructor
  · rintro ⟨s₀, hfrom, inputs, hbefore, hafter⟩
    exact ⟨inputs, ⟨s₀, hfrom, hbefore⟩, hafter⟩
  · rintro ⟨inputs, ⟨s₀, hfrom, hbefore⟩, hafter⟩
    exact ⟨s₀, hfrom, inputs, hbefore, hafter⟩

/-- The snapshot gives the same inputs whatever store it is restored over. -/
theorem restoreFrom_inputs {s t s' : RuntimeState} {payload : Bytes} (hsame : t.inputs = s.inputs)
    (h : restoreFrom s payload = .ok s') :
    ∃ t', restoreFrom t payload = .ok t' ∧ t'.inputs = s'.inputs := by
  unfold restoreFrom at h ⊢
  split at h
  · rename_i hempty
    rw [if_pos hempty]
    obtain rfl := Except.ok.inj h
    exact ⟨t, rfl, hsame⟩
  · rename_i hsome
    rw [if_neg hsome]
    obtain ⟨restored, topology, policy, evidence, boundary, hrestored, htopology, hpolicy, hevidence,
      hboundary, rfl⟩ := restoreSnapshot_ok h
    refine ⟨t.withDurable restored topology policy evidence boundary, ?_, ?_⟩
    · unfold restoreSnapshot
      simp only [hrestored, htopology, hpolicy, hevidence, hboundary, bind, Except.bind]
      rfl
    · have hpolicy : t.policy = s.policy := congrArg Inputs.policy hsame
      have hevidence : t.evidence = s.evidence := congrArg Inputs.evidence hsame
      unfold RuntimeState.inputs withDurable
      simp only [hpolicy, hevidence]

/-- A durable runtime is recovered with the inputs that its store stores. -/
theorem recover_stores {config : RuntimeConfig} {disk disk' : Disk} {s : RuntimeState}
    (horder : InOrder disk) (h : recover config disk = (.ok s, disk'))
    (hpersist : config.persist = true) : Stores config disk s.inputs := by
  rcases recover_ok h with ⟨-, recovery, hopen, hrestore, -⟩ | ⟨hvolatile, -⟩
  · obtain ⟨hreplayed, hpayload, -⟩ := openStore_inOrder horder hopen
    obtain ⟨s₀, hfrom, hreplay⟩ := restore_ok hrestore
    rw [hpayload] at hfrom
    rw [hreplayed] at hreplay
    obtain ⟨s₁, hfrom₁, hinputs⟩ := restoreFrom_inputs (t := RuntimeState.initial config)
      (by rfl) hfrom
    refine ⟨s₁, hfrom₁, ?_⟩
    rw [hinputs]
    exact replay_inputs hreplay
  · rw [hpersist] at hvolatile
    exact absurd hvolatile (by simp)

/-- The policies that a runtime can have under a configuration: the configured one, or a newer one. -/
def PolicyUnder (config : RuntimeConfig) (policy : ContainmentPolicy) : Prop :=
  policy = effectivePolicy config.policy ∨
    (effectivePolicy config.policy).generation < policy.generation

/-- The configured policy has a generation. -/
theorem effectivePolicy_ne_zero (policy : ContainmentPolicy) :
    (effectivePolicy policy).generation ≠ 0 := by
  unfold effectivePolicy
  split
  · decide
  · assumption

/-- And so has every policy that a runtime can have, which is kept when it starts again. -/
theorem PolicyUnder.effective {config : RuntimeConfig} {policy : ContainmentPolicy}
    (h : PolicyUnder config policy) : effectivePolicy policy = policy := by
  have hne : policy.generation ≠ 0 := by
    rcases h with rfl | hlt
    · exact effectivePolicy_ne_zero _
    · intro hzero
      rw [hzero] at hlt
      exact absurd hlt (by simp)
  exact if_neg hne

/-- A record leaves such a policy, or another. -/
theorem PolicyUnder.replay {config : RuntimeConfig} {inputs inputs' : Inputs} {frame : Frame}
    (h : PolicyUnder config inputs.policy) (hreplay : inputs.replay frame = some inputs') :
    PolicyUnder config inputs'.policy := by
  unfold Inputs.replay at hreplay
  split at hreplay
  · obtain ⟨t, -, rfl⟩ := Option.map_eq_some_iff.mp hreplay
    unfold Inputs.takeTopology
    split <;> exact h
  · obtain ⟨policy, -, rfl⟩ := Option.map_eq_some_iff.mp hreplay
    unfold Inputs.takePolicy
    split
    · rename_i hnewer
      right
      rcases h with heq | hlt
      · rwa [← heq]
      · exact UInt64.lt_trans hlt hnewer
    · exact h
  · obtain ⟨record, -, rfl⟩ := Option.map_eq_some_iff.mp hreplay
    exact h
  · obtain ⟨record, -, rfl⟩ := Option.map_eq_some_iff.mp hreplay
    exact h
  · obtain rfl := Option.some.inj hreplay
    exact h

/-- What a store stores has such a policy. -/
theorem Stores.policyUnder {config : RuntimeConfig} {disk : Disk} {inputs : Inputs}
    (h : Stores config disk inputs) : PolicyUnder config inputs.policy := by
  obtain ⟨s₀, hfrom, hreplay⟩ := h
  have hs₀ : PolicyUnder config s₀.policy := by
    unfold restoreFrom at hfrom
    split at hfrom
    · obtain rfl := Except.ok.inj hfrom
      exact Or.inl rfl
    · obtain ⟨restored, topology, policy, evidence, boundary, -, -, -, -, -, rfl⟩ :=
        restoreSnapshot_ok hfrom
      cases policy with
      | none => exact Or.inl rfl
      | some policy =>
        show PolicyUnder config (if _ then policy else effectivePolicy config.policy)
        split
        · rename_i hnewer
          exact Or.inr hnewer
        · exact Or.inl rfl
  have hinputs : PolicyUnder config s₀.inputs.policy := hs₀
  exact Inputs.replay_induction (P := fun inputs => PolicyUnder config inputs.policy)
    (fun _ _ _ _ hframe h => h.replay hframe) hreplay hinputs

/-- A snapshot that was just written stores the inputs in force, with evidence that was built. -/
theorem stores_saved {config : RuntimeConfig} {disk : Disk} {sequence : Sequence} {s : RuntimeState}
    {inputs : Inputs} (hsnapshot : disk.snapshot = some (sequence, encodeDurableState s.durable))
    (hlog : disk.log = [])
    (hfits : (encodeDurableState s.durable).length ≤ kMaxSnapshotPayloadBytes)
    (hpolicy : PolicyUnder config s.policy) (h : Stores config disk inputs) :
    inputs.topology = s.topology ∧ inputs.policy = s.policy ∧
      inputs.evidence.entries = s.evidence.entries ∧ inputs.evidence.Built := by
  obtain ⟨htopology_ne, hpolicy_ne, hevidence_ne, -⟩ := encode_ne_nil
  have hlen : (encodeDurableState s.durable).length < 2 ^ 32 := hfits.trans_lt (by decide)
  obtain ⟨s₀, hfrom, hreplay⟩ := h
  rw [hlog] at hreplay
  obtain rfl := Option.some.inj hreplay
  rw [hsnapshot] at hfrom
  change restoreFrom _ (encodeDurableState s.durable) = _ at hfrom
  unfold restoreFrom at hfrom
  rw [if_neg (encodeDurableState_ne_nil _)] at hfrom
  obtain ⟨restored, topology, policy, evidence, boundary, hdecoded, htopology, hpolicy', hevidence,
    -, rfl⟩ := restoreSnapshot_ok hfrom
  obtain rfl := decodeDurableState_recovers hlen hdecoded
  have hevidence_len : s.evidence.encode.length < 2 ^ 32 := by
    simp only [encodeDurableState, durable, List.length_append, Write.blob] at hlen
    omega
  -- each part of the payload is decoded to what it was written for
  refine ⟨?_, ?_, ?_⟩
  · show topology = s.topology
    unfold durable at htopology
    cases ht : s.topology with
    | none =>
      rw [ht] at htopology
      exact (Except.ok.inj htopology).symm
    | some t =>
      rw [ht] at htopology
      exact (Except.ok.inj ((decodePart_encode t.decode_encode (htopology_ne t)).symm.trans
        htopology)).symm
  · change decodePart _ s.policy.encode = _ at hpolicy'
    unfold decodePart at hpolicy'
    rw [if_neg (hpolicy_ne _), bind_eq_ok] at hpolicy'
    obtain ⟨decoded, hdecode, hsome⟩ := hpolicy'
    obtain rfl := Except.ok.inj hsome
    obtain rfl : s.policy = decoded := by
      rw [s.policy.decode_encode] at hdecode
      cases hvalid : validatePolicy s.policy with
      | error status =>
        rw [hvalid] at hdecode
        exact absurd hdecode (by simp [Except.map])
      | ok _ =>
        rw [hvalid] at hdecode
        exact Except.ok.inj hdecode
    -- a restored policy counts only past that of the configuration, and the one in force is past it
    show (if (effectivePolicy config.policy).generation < s.policy.generation then s.policy
      else effectivePolicy config.policy) = s.policy
    rcases hpolicy with heq | hlt
    · rw [← heq, ite_self]
    · rw [if_pos hlt]
  · change decodePart _ s.evidence.encode = _ at hevidence
    unfold decodePart at hevidence
    rw [if_neg (hevidence_ne _), bind_eq_ok] at hevidence
    obtain ⟨decoded, hdecode, hsome⟩ := hevidence
    obtain rfl := Except.ok.inj hsome
    exact EvidenceVector.decode_recovers hevidence_len hdecode

/-! ## What is published -/

/-- The record of a topology. -/
theorem replay_topology {inputs : Inputs} {sequence : Sequence} {t : Topology} :
    inputs.replay ⟨.topologyDefinition, sequence, t.encode⟩ = some (inputs.takeTopology t) := by
  unfold Inputs.replay
  simp only [t.decode_encode]
  rfl

/-- The record of a policy. -/
theorem replay_policy {inputs inputs' : Inputs} {sequence : Sequence} {policy : ContainmentPolicy}
    (h : inputs.replay ⟨.policyDefinition, sequence, policy.encode⟩ = some inputs') :
    inputs' = inputs.takePolicy policy := by
  unfold Inputs.replay at h
  simp only [policy.decode_encode] at h
  cases hvalid : validatePolicy policy with
  | error status =>
    rw [hvalid] at h
    exact absurd h (by simp [Except.map, Except.toOption])
  | ok _ =>
    rw [hvalid] at h
    exact (Option.some.inj h).symm

/-- The record of an observation. -/
theorem replay_detection {inputs inputs' : Inputs} {sequence : Sequence} {record : DetectionRecord}
    (hfits : (encodeDetection record).length ≤ kMaxRecordPayloadBytes)
    (h : inputs.replay ⟨.detectionRecord, sequence, encodeDetection record⟩ = some inputs') :
    inputs' = inputs.takeDetection record := by
  obtain ⟨decoded, hdecoded, rfl⟩ := Option.map_eq_some_iff.mp
    (show (decodeDetection (encodeDetection record)).toOption.map inputs.takeDetection = some inputs'
      from h)
  rw [decodeDetection_recovers (hfits.trans_lt (by decide)) (mem_toOption.mp hdecoded)]

/-- The policy in force is taken in without effect. -/
theorem Inputs.takePolicy_self (inputs : Inputs) : inputs.takePolicy inputs.policy = inputs :=
  if_neg (UInt64.lt_irrefl _)

/-- What a call publishes: the record and the inputs with it. -/
inductive Publishes (s : RuntimeState) : Frame → Inputs → Prop
  | topology (t : Topology) (sequence : Sequence)
      (newer : ∀ current, s.topology = some current → current.generation < t.generation) :
    Publishes s ⟨.topologyDefinition, sequence, t.encode⟩ { s.inputs with topology := some t }
  | policy (policy : ContainmentPolicy) (sequence : Sequence)
      (newer : s.policy.generation < policy.generation) :
    Publishes s ⟨.policyDefinition, sequence, policy.encode⟩ { s.inputs with policy := policy }
  | detection (observation : FailureObservation) (merged : EvidenceVector) (sequence : Sequence)
      (merges : s.evidence.merged observation = .ok merged)
      (changed : merged.digest ≠ s.evidence.digest)
      (fits : (encodeDetection (s.detectionRecord observation)).length ≤ kMaxRecordPayloadBytes) :
    Publishes s ⟨.detectionRecord, sequence, encodeDetection (s.detectionRecord observation)⟩
      { s.inputs with evidence := merged }

/-- What a call of a durable runtime does to its inputs, and to what its store stores of them. -/
inductive InputsStep (s : RuntimeState) (store : DurableStore) (s' : RuntimeState) : Prop
  | quiet (same : s'.inputs = s.inputs)
      (grown : Grown (fun type _ => type.publishes = false) (some store) s'.store)
  | saved {store' : DurableStore} (same : s'.inputs = s.inputs) (stored : s'.store = some store')
      (saved : s.Saved store store')
  | published {type : RecordType} {payload : Bytes}
      (publishes : Publishes s ⟨type, store.last_sequence + 1, payload⟩ s'.inputs)
      (stored : s'.store = some (store.appended type payload))

/-- The store after a commit. -/
theorem committed_store {s : RuntimeState} {store : DurableStore} (h : s.store = some store)
    (type : RecordType) (payload : Bytes) :
    (s.committed type payload).store = some (store.appended type payload) := by
  unfold RuntimeState.committed
  rw [h]
  rfl

/-- A call publishes one input, or leaves them all. -/
theorem Outcome.inputsStep {env : Env} {s s' : RuntimeState} {call : Call} {reply : Result Reply}
    {store : DurableStore} (h : Outcome env s call reply s') (hstep : s.InStep)
    (hstore : s.store = some store) : InputsStep s store s' := by
  have hsame : ∀ {s' : RuntimeState}, s'.inputs = s.inputs → s'.store = s.store →
      InputsStep s store s' := fun hinputs hstores =>
    .quiet hinputs (by rw [hstores, hstore]; exact .refl _)
  have hquiet : ∀ (s₁ : RuntimeState) {s' : RuntimeState} {type : RecordType} {payload : Bytes},
      s₁.store = s.store → type.publishes = false → s₁.Committable env payload →
      s'.inputs = s.inputs → s'.store = (s₁.committed type payload).store →
      InputsStep s store s' := by
    intro s₁ s' type payload hstores htype hcommittable hinputs hstores'
    refine .quiet hinputs ?_
    rw [hstores', ← hstore, ← hstores]
    exact grown_committed htype hcommittable
  cases h with
  | topology _ newer committable =>
    exact .published (.topology _ _ newer) (committed_store hstore _ _)
  | policy _ newer committable =>
    exact .published (.policy _ _ newer) (committed_store hstore _ _)
  -- the store counts with the state, so no record gets another sequence than it names
  | diverged _ _ _ _ diverges =>
    refine absurd ?_ diverges
    unfold RuntimeState.committed
    simp only [hstore]
    rw [hstep store hstore]
  | @detected observation merged merges changed committable =>
    exact .published (.detection observation merged _ merges changed (committable store hstore).1)
      (committed_store hstore _ _)
  | planned _ _ _ committable => exact hquiet s rfl rfl committable rfl rfl
  | transitionFailed _ _ counted => rcases counted with rfl | rfl <;> exact hsame rfl rfl
  | transitionRefused s₁ _ _ counted _ committable =>
    have hstores : s₁.store = s.store ∧ s₁.inputs = s.inputs := by
      rcases counted with rfl | rfl <;> exact ⟨rfl, rfl⟩
    exact hquiet s₁ hstores.1 rfl committable hstores.2 rfl
  | transitionHalved _ _ _ committable =>
    exact hquiet s.countTransition rfl rfl committable rfl rfl
  -- two records, neither of an input
  | transitionAccepted _ _ _ _ committable =>
    refine .quiet rfl ?_
    rw [← hstore]
    exact (grown_committed (s := s.countTransition) (by rfl) committable.1).trans
      (grown_committed (by rfl) committable.2)
  | submitted _ _ committable => exact hquiet s.countAttempt rfl rfl committable rfl rfl
  | @ackMismatched ack _ _ _ _ taken =>
    rcases taken with rfl | ⟨committable, rfl⟩
    · exact hsame rfl rfl
    · exact hquiet (s.setAttempt _ _) rfl rfl committable rfl rfl
  | acknowledged _ _ committable =>
    exact hquiet (s.setAttempt _ _) rfl rfl committable rfl rfl
  | verifyMismatched _ _ _ committable =>
    exact hquiet (s.setAttempt _ _) rfl rfl committable rfl rfl
  | verified _ _ committable =>
    rw [adoptVerified_eq]
    exact hquiet (s.setAttempt _ _) rfl rfl committable rfl rfl
  | saveFailed _ durable saved =>
    obtain rfl := Option.some.inj (hstore.symm.trans durable)
    exact .saved rfl rfl saved
  | saved durable saved =>
    obtain rfl := Option.some.inj (hstore.symm.trans durable)
    exact .saved rfl rfl saved
  | _ => exact hsame rfl rfl

/-! ## Startup records -/

/-- The records that a startup commits: a topology only when none was recovered, and the policy that
was. -/
inductive StartupInput (s : RuntimeState) : RecordType → Bytes → Prop
  | topology (t : Topology) (missing : s.topology = none) (needed : s.config.topology.nodes ≠ []) :
    StartupInput s .topologyDefinition t.encode
  | policy : StartupInput s .policyDefinition (effectivePolicy s.policy).encode
  | quiet {type : RecordType} (payload : Bytes) (quiet : type.publishes = false) :
    StartupInput s type payload

/-- A startup commits such records, whether it succeeds or not. -/
theorem startup_inputs (env : Env) (s : RuntimeState) :
    Grown (StartupInput s) s.store (exec (startup env) s).2.store := by
  -- the configured topology is recorded when none was recovered
  have htaken : Grown (StartupInput s) s.store (exec (takeConfigured env) s).2.store ∧
      (exec (takeConfigured env) s).2.policy = s.policy := by
    unfold takeConfigured
    rw [exec_get_bind]
    split
    · rename_i hneeds
      rw [exec_bind, exec_lift]
      cases Topology.build s.config.topology with
      | error status => exact ⟨.refl _, rfl⟩
      | ok t =>
        simp only [exec_modify_bind]
        split
        · have hgrown := @moves_commit (StartupInput s) env .topologyDefinition t.encode
            (.topology t hneeds.2 hneeds.1) { s with topology := some t }
          refine ⟨hgrown, ?_⟩
          rcases exec_commit env .topologyDefinition t.encode { s with topology := some t } with
            ⟨hc, -⟩ | ⟨⟨status, hc⟩, -⟩
          · rw [hc]
            rfl
          · rw [hc]
        · exact ⟨.refl _, rfl⟩
    · exact ⟨.refl _, rfl⟩
  -- then come the records that every incarnation starts with
  have hbegun : ∀ s₁ : RuntimeState, s₁.policy = s.policy →
      Grown (StartupInput s) s₁.store (exec (beginDurable env) s₁).2.store := by
    intro s₁ hpolicy
    unfold beginDurable
    rw [exec_get_bind]
    split
    · rw [exec_modify_bind, exec_get_bind]
      have hmoves : Moves (fun s' s'' : RuntimeState => Grown (StartupInput s) s'.store s''.store) (do
          commit env .policyDefinition (effectivePolicy s₁.policy).encode
          commit env .epochAdvance (encodeEpochAdvance s₁.epoch s₁.boot)
          commit env .fence (encodeFence s₁.fenced_boots)) := by
        refine Moves.bind (moves_commit ?_) fun _ => Moves.bind (moves_commit ?_) fun _ =>
          moves_commit ?_
        · rw [hpolicy]
          exact .policy
        · exact .quiet _ rfl
        · exact .quiet _ rfl
      exact hmoves { s₁ with policy := effectivePolicy s₁.policy }
    · exact .refl _
  -- either part may fail, and what it has committed stays
  unfold startup
  rw [exec_bind]
  generalize exec (takeConfigured env) s = taken at htaken
  obtain ⟨outcome, s₁⟩ := taken
  cases outcome with
  | error status => exact htaken.1
  | ok _ =>
    have hbegun := hbegun s₁ htaken.2
    simp only [exec_bind]
    generalize exec (beginDurable env) s₁ = begun at hbegun
    obtain ⟨outcome, s₂⟩ := begun
    cases outcome with
    | error status => exact htaken.1.trans hbegun
    | ok _ => exact htaken.1.trans hbegun

/-- Inputs that a startup has nothing to add to: there is a topology, unless none is configured, and
the policy has a generation. -/
def Inputs.Complete (config : RuntimeConfig) (inputs : Inputs) : Prop :=
  (inputs.topology = none → config.topology.nodes = []) ∧ PolicyUnder config inputs.policy

/-- The records of a startup leave such inputs. -/
theorem replay_startup {config : RuntimeConfig} {s : RuntimeState}
    (hcomplete : s.inputs.Complete config) (hconfig : s.config = config) {added : List Frame}
    (hadded : ∀ frame ∈ added, StartupInput s frame.type frame.payload) {inputs' : Inputs}
    (h : added.foldlM Inputs.replay s.inputs = some inputs') : inputs' = s.inputs := by
  refine Inputs.replay_induction (P := fun inputs => inputs = s.inputs) ?_ h rfl
  rintro inputs ⟨type, sequence, payload⟩ next hmem hframe rfl
  obtain ⟨htopology, hpolicy⟩ := hcomplete
  cases hadded ⟨type, sequence, payload⟩ hmem with
  | topology t missing needed => exact absurd (htopology missing) (hconfig ▸ needed)
  | policy =>
    have heffective : effectivePolicy s.policy = s.policy := hpolicy.effective
    rw [heffective] at hframe
    rw [replay_policy hframe]
    exact s.inputs.takePolicy_self
  | quiet _ quiet => exact (Option.some.inj ((Inputs.replay_quiet quiet).symm.trans hframe)).symm

/-! ## What an open finds -/

/-- A durable state has the inputs that its store stores. -/
def Tells (config : RuntimeConfig) (s : RuntimeState) : Prop :=
  ∀ store ∈ s.store, ∀ inputs, Stores config store.disk inputs → inputs = s.inputs

/-- A record that is committed with what it does to the inputs. -/
theorem Tells.committed {config : RuntimeConfig} {s s' : RuntimeState} (h : Tells config s)
    {type : RecordType} {payload : Bytes} (hstore : s'.store = (s.committed type payload).store)
    (hreplay : ∀ sequence inputs', s.inputs.replay ⟨type, sequence, payload⟩ = some inputs' →
      inputs' = s'.inputs) : Tells config s' := by
  intro store hmem inputs hstores
  cases hs : s.store with
  | none =>
    rw [Option.mem_def, hstore, RuntimeState.committed, hs] at hmem
    exact absurd hmem (by simp)
  | some before =>
    rw [Option.mem_def, hstore, committed_store hs] at hmem
    obtain rfl := Option.some.inj hmem
    obtain ⟨inputs₀, hstores₀, hlast⟩ := (@Stores.append config before.disk
      (before.appended type payload).disk [⟨type, before.last_sequence + 1, payload⟩] rfl rfl _).mp
        hstores
    obtain rfl := h before hs inputs₀ hstores₀
    rw [List.foldlM_cons, Option.bind_eq_bind, Option.bind_eq_some_iff] at hlast
    obtain ⟨next, hframe, hrest⟩ := hlast
    obtain rfl := Option.some.inj hrest
    exact hreplay _ _ hframe

/-- A startup that succeeds leaves a state with the inputs that its store stores, and these have
nothing to add. -/
theorem Started.tells {config : RuntimeConfig} {s s' : RuntimeState} (h : Started s s')
    (htells : Tells config s) (hconfig : s.config = config) (hpolicy : PolicyUnder config s.policy)
    (hdurable : s.store.isSome) :
    Tells config s' ∧ s'.inputs.Complete config ∧
      (s.inputs.Complete config → s'.inputs = s.inputs) := by
  -- the policy is recorded as it is in force, and the other startup records publish nothing
  have hbegan : ∀ s₁ : RuntimeState, Tells config s₁ → s₁.policy = s.policy →
      Tells config s₁.began.evictBoundedTables ∧ s₁.began.evictBoundedTables.inputs = s₁.inputs := by
    intro s₁ htells₁ hpolicy₁
    have heffective : effectivePolicy s₁.policy = s₁.policy := by
      rw [hpolicy₁]
      exact hpolicy.effective
    have hsame : s₁.began.evictBoundedTables.inputs = s₁.inputs := by
      unfold RuntimeState.began RuntimeState.inputs
      simp only [RuntimeState.committed, evictBoundedTables, heffective]
    refine ⟨?_, hsame⟩
    have hnew : Tells config { s₁ with policy := effectivePolicy s₁.policy } := by
      intro store hstore inputs hstores
      rw [htells₁ store hstore inputs hstores]
      unfold RuntimeState.inputs
      rw [heffective]
    refine Tells.committed (Tells.committed (Tells.committed hnew (by rfl) ?_) (by rfl) ?_) (by rfl) ?_
    · intro sequence inputs' hframe
      rw [replay_policy hframe]
      exact Inputs.takePolicy_self _
    · intro sequence inputs' hframe
      exact (Option.some.inj ((Inputs.replay_quiet (by rfl)).symm.trans hframe)).symm
    · intro sequence inputs' hframe
      exact (Option.some.inj ((Inputs.replay_quiet (by rfl)).symm.trans hframe)).symm
  cases h with
  | volatile _ hnone => exact absurd hdurable (by simp [hnone])
  | durable configured _ =>
    cases configured with
    | kept has =>
      obtain ⟨htold, hsame⟩ := hbegan s htells rfl
      refine ⟨htold, ?_, fun _ => hsame⟩
      rw [hsame]
      exact ⟨fun hmissing => hconfig ▸ has.resolve_left (not_not.mpr hmissing), hpolicy⟩
    | @built t missing build =>
      have hconfigured : s.configure t =
          ({ s with topology := some t } : RuntimeState).committed .topologyDefinition t.encode :=
        if_pos hdurable
      have htaken : Tells config (s.configure t) := by
        rw [hconfigured]
        refine Tells.committed htells (by rfl) fun sequence inputs' hframe => ?_
        rw [replay_topology] at hframe
        obtain rfl := Option.some.inj hframe
        unfold Inputs.takeTopology RuntimeState.inputs
        rw [if_pos (by simp [missing])]
        rfl
      have hkept : (s.configure t).policy = s.policy ∧ (s.configure t).topology = some t := by
        rw [hconfigured]
        exact ⟨rfl, rfl⟩
      obtain ⟨htold, hsame⟩ := hbegan _ htaken hkept.1
      refine ⟨htold, ?_, fun hcomplete => ?_⟩
      · rw [hsame]
        refine ⟨fun hmissing => ?_, ?_⟩
        · exact absurd (hkept.2.symm.trans hmissing) (by simp)
        · show PolicyUnder config (s.configure t).policy
          rw [hkept.1]
          exact hpolicy
      -- a topology that is built has nodes, so the inputs were not complete without it
      · have hneeded : config.topology.nodes ≠ [] := by
          rw [hconfig, Topology.build_eq_ok] at build
          simp only [TopologyDef.build, require_bind_eq_ok, bne_iff_ne] at build
          obtain ⟨-, -, -, hne, -⟩ := build
          exact hne
        exact absurd (hcomplete.1 missing) hneeded

/-- What an open adds to a log: the startup records of the inputs that it finds. -/
theorem openRuntime_stores {config : RuntimeConfig} {env : Env} {boot : BootIdentity} {disk : Disk}
    (horder : InOrder disk) :
    (openRuntime config env boot disk).2.snapshot = disk.snapshot ∧ ∃ added,
      (openRuntime config env boot disk).2.log = disk.log ++ added ∧
      (added = [] ∨ ∃ s₀ : RuntimeState, Stores config disk s₀.inputs ∧ s₀.config = config ∧
        ∀ frame ∈ added, StartupInput s₀ frame.type frame.payload) := by
  refine ⟨openRuntime_snapshot config env boot disk, ?_⟩
  have hstartup : ∀ s ∈ (recover config disk).1.toOption,
      Grown (fun type payload => ∃ s ∈ (recover config disk).1.toOption,
        StartupInput (s.incarnate boot) type payload) (s.incarnate boot).store
          (exec (startup env) (s.incarnate boot)).2.store := fun s hs =>
    (startup_inputs env (s.incarnate boot)).mono fun _ _ hinput _ => ⟨s, hs, hinput⟩
  rcases openRuntime_grown config env boot disk hstartup with ⟨hsame, -⟩ |
    ⟨recovery, store, hpersist, hopen, hgrown, hdisk, -⟩
  · exact ⟨[], by rw [hsame, List.append_nil], Or.inl rfl⟩
  · obtain ⟨-, -, added, hlog, hadded⟩ := hgrown.disk
    refine ⟨added, by rw [hdisk, hlog, (openStore_spec hopen).log], ?_⟩
    cases hrecover : recover config disk with
    | mk outcome disk₀ =>
      rw [hrecover] at hadded
      cases outcome with
      | error status =>
        left
        -- where nothing is recovered nothing is started
        refine List.eq_nil_iff_forall_not_mem.mpr fun frame hframe => ?_
        obtain ⟨s, hs, -⟩ := hadded frame hframe
        exact absurd hs (by simp [Except.toOption])
      | ok s₀ =>
        right
        have hstores := recover_stores horder hrecover hpersist
        refine ⟨s₀.incarnate boot, hstores, ?_, fun frame hframe => ?_⟩
        · rcases recover_ok hrecover with ⟨-, recovery', -, hrestore, -⟩ | ⟨hvolatile, -⟩
          · exact (restore_store hrestore).2
          · exact absurd hpersist (by simp [hvolatile])
        · obtain ⟨s, hs, hinput⟩ := hadded frame hframe
          obtain rfl := Option.some.inj hs
          exact hinput

/-- A durable runtime that opened: what was recovered, and what it started with. -/
theorem openRuntime_tells {config : RuntimeConfig} {env : Env} {boot : BootIdentity} {disk disk' : Disk}
    {s : RuntimeState} (horder : InOrder disk)
    (h : openRuntime config env boot disk = (.ok s, disk')) (hdurable : s.store.isSome) :
    ∃ inputs, Stores config disk inputs ∧ Tells config s ∧ s.inputs.Complete config ∧
      (inputs.Complete config → s.inputs = inputs) := by
  obtain ⟨s₀, disk₀, hrecover, hstarted, -⟩ := openRuntime_ok h
  have hsome : (s₀.incarnate boot).store.isSome := hstarted.same.isSome.symm.trans hdurable
  rcases recover_ok hrecover with ⟨hpersist, recovery, hopen, hrestore, -⟩ | ⟨-, rfl, -⟩
  · have hstores := recover_stores horder hrecover hpersist
    obtain ⟨hstore, hconfig⟩ := restore_store hrestore
    have htells : Tells config (s₀.incarnate boot) := by
      intro store hmem inputs htold
      obtain rfl := Option.some.inj (hstore.symm.trans hmem)
      obtain ⟨-, -, hsnapshot, hlog, -⟩ := openStore_inOrder horder hopen
      refine hstores.unique ?_
      unfold Stores at htold ⊢
      rwa [hsnapshot, hlog] at htold
    exact ⟨s₀.inputs, hstores, hstarted.tells htells hconfig hstores.policyUnder hsome⟩
  · exact absurd hsome (by simp [RuntimeState.initial, incarnate])

/-! ## What is recovered -/

/-- Evidence that was built stays so. -/
theorem Inputs.replay_built {inputs inputs' : Inputs} {frame : Frame}
    (h : inputs.replay frame = some inputs') (hbuilt : inputs.evidence.Built) :
    inputs'.evidence.Built := by
  have htaken : ∀ record, (inputs.takeDetection record).evidence.Built := by
    intro record
    unfold Inputs.takeDetection
    simp only
    split
    · rename_i merged hmerged
      -- evidence that a record changes was built when it was merged
      by_cases hsame : merged = inputs.evidence
      · rw [hsame]
        exact hbuilt
      · exact (EvidenceVector.merged_congr rfl hmerged hsame).2
    · exact hbuilt
  unfold Inputs.replay at h
  split at h
  · obtain ⟨t, -, rfl⟩ := Option.map_eq_some_iff.mp h
    unfold Inputs.takeTopology
    split <;> exact hbuilt
  · obtain ⟨policy, -, rfl⟩ := Option.map_eq_some_iff.mp h
    unfold Inputs.takePolicy
    split <;> exact hbuilt
  · obtain ⟨record, -, rfl⟩ := Option.map_eq_some_iff.mp h
    exact htaken record
  · obtain ⟨record, -, rfl⟩ := Option.map_eq_some_iff.mp h
    exact htaken record
  · obtain rfl := Option.some.inj h
    exact hbuilt

/-- The evidence that a store with a snapshot stores was built. -/
def BuiltIn (config : RuntimeConfig) (disk : Disk) : Prop :=
  disk.snapshot ≠ none → ∀ inputs, Stores config disk inputs → inputs.evidence.Built

/-- Records that are appended keep it so. -/
theorem BuiltIn.append {config : RuntimeConfig} {disk disk' : Disk} {added : List Frame}
    (h : BuiltIn config disk) (hsnapshot : disk'.snapshot = disk.snapshot)
    (hlog : disk'.log = disk.log ++ added) : BuiltIn config disk' := by
  intro hsome inputs' hstores
  obtain ⟨inputs, hbefore, hreplay⟩ := (Stores.append hsnapshot hlog).mp hstores
  exact Inputs.replay_induction (P := fun inputs => inputs.evidence.Built)
    (fun _ _ _ _ hframe hbuilt => Inputs.replay_built hframe hbuilt) hreplay
    (h (hsnapshot ▸ hsome) inputs hbefore)

/-- The inputs that a store stores are these, but for the digest of evidence that has no entries. -/
structure Matches (disk : Disk) (inputs stored : Inputs) : Prop where
  topology : stored.topology = inputs.topology
  policy : stored.policy = inputs.policy
  entries : stored.evidence.entries = inputs.evidence.entries
  evidence : stored.evidence = inputs.evidence ↔
    (inputs.evidence = EvidenceVector.empty → disk.snapshot = none)

/-- Inputs that have nothing to add and are recovered, if anything is. -/
structure Restorable (config : RuntimeConfig) (disk : Disk) (inputs : Inputs) : Prop where
  complete : inputs.Complete config
  stored : ∀ stored, Stores config disk stored → Matches disk inputs stored

/-- Stored inputs have nothing to add where those that they match have not. -/
theorem Matches.complete {config : RuntimeConfig} {disk : Disk} {inputs stored : Inputs}
    (h : Matches disk inputs stored) (hcomplete : inputs.Complete config) :
    stored.Complete config := by
  unfold Inputs.Complete
  rw [h.topology, h.policy]
  exact hcomplete

/-- They are the same exactly when the evidence is. -/
theorem Matches.eq_iff {disk : Disk} {inputs stored : Inputs} (h : Matches disk inputs stored) :
    stored = inputs ↔ (inputs.evidence = EvidenceVector.empty → disk.snapshot = none) := by
  rw [← h.evidence]
  constructor
  · exact congrArg Inputs.evidence
  · intro hevidence
    obtain ⟨htopology, hpolicy, -, -⟩ := h
    cases stored
    cases inputs
    simp_all

/-- Records without effect on what is stored leave the inputs restorable. -/
theorem Restorable.append {config : RuntimeConfig} {disk disk' : Disk} {inputs : Inputs}
    {added : List Frame} (h : Restorable config disk inputs)
    (hsnapshot : disk'.snapshot = disk.snapshot) (hlog : disk'.log = disk.log ++ added)
    (hadded : ∀ stored stored', Stores config disk stored → stored.Complete config →
      added.foldlM Inputs.replay stored = some stored' → stored' = stored) :
    Restorable config disk' inputs := by
  refine ⟨h.complete, fun stored' hstores => ?_⟩
  obtain ⟨stored, hbefore, hreplay⟩ := (Stores.append hsnapshot hlog).mp hstores
  have hmatches := h.stored stored hbefore
  rw [hadded stored stored' hbefore (hmatches.complete h.complete) hreplay]
  exact ⟨hmatches.topology, hmatches.policy, hmatches.entries, hsnapshot ▸ hmatches.evidence⟩

/-- So do records that publish nothing. -/
theorem Restorable.quiet {config : RuntimeConfig} {disk disk' : Disk} {inputs : Inputs}
    {added : List Frame} (h : Restorable config disk inputs)
    (hsnapshot : disk'.snapshot = disk.snapshot) (hlog : disk'.log = disk.log ++ added)
    (hquiet : ∀ frame ∈ added, frame.type.publishes = false) : Restorable config disk' inputs := by
  refine h.append hsnapshot hlog fun stored stored' _ _ hreplay => ?_
  refine Inputs.replay_induction (P := fun inputs => inputs = stored) ?_ hreplay rfl
  rintro inputs frame next hmem hframe rfl
  exact (Option.some.inj ((Inputs.replay_quiet (hquiet frame hmem)).symm.trans hframe)).symm

/-- A record that publishes an input makes it restorable with the others. -/
theorem Restorable.published {config : RuntimeConfig} {disk disk' : Disk} {s : RuntimeState}
    {inputs : Inputs} {frame : Frame} (h : Restorable config disk s.inputs)
    (hsnapshot : disk'.snapshot = disk.snapshot) (hlog : disk'.log = disk.log ++ [frame])
    (hpublishes : Publishes s frame inputs) : Restorable config disk' inputs := by
  obtain ⟨⟨htopology, hpolicy⟩, hstored⟩ := h
  -- what is stored now is what was stored before, with the record replayed on it
  have hbefore : ∀ stored', Stores config disk' stored' → ∃ stored, Matches disk s.inputs stored ∧
      stored.replay frame = some stored' := by
    intro stored' hstores
    obtain ⟨stored, hearlier, hreplay⟩ := (Stores.append hsnapshot hlog).mp hstores
    rw [List.foldlM_cons, Option.bind_eq_bind, Option.bind_eq_some_iff] at hreplay
    obtain ⟨next, hframe, hrest⟩ := hreplay
    obtain rfl := Option.some.inj hrest
    exact ⟨stored, hstored stored hearlier, hframe⟩
  cases hpublishes with
  | topology t sequence newer =>
    refine ⟨⟨fun hmissing => absurd hmissing (by simp), hpolicy⟩, fun stored' hstores => ?_⟩
    obtain ⟨stored, hmatches, hframe⟩ := hbefore stored' hstores
    rw [replay_topology] at hframe
    obtain rfl := Option.some.inj hframe
    have hnewer : (stored.topology.all fun current => current.generation < t.generation) = true := by
      rw [hmatches.topology]
      refine Option.all_eq_true _ _ |>.mpr fun current hcurrent => ?_
      exact decide_eq_true (newer current hcurrent)
    unfold Inputs.takeTopology
    rw [if_pos hnewer]
    exact ⟨rfl, hmatches.policy, hmatches.entries, hsnapshot ▸ hmatches.evidence⟩
  | policy policy sequence newer =>
    refine ⟨⟨htopology, ?_⟩, fun stored' hstores => ?_⟩
    · right
      rcases hpolicy with heq | hlt
      · rw [← heq]
        exact newer
      · exact UInt64.lt_trans hlt newer
    · obtain ⟨stored, hmatches, hframe⟩ := hbefore stored' hstores
      rw [replay_policy hframe]
      have hnewer : stored.policy.generation < policy.generation := by
        rw [hmatches.policy]
        exact newer
      unfold Inputs.takePolicy
      rw [if_pos hnewer]
      exact ⟨hmatches.topology, rfl, hmatches.entries, hsnapshot ▸ hmatches.evidence⟩
  | detection observation merged sequence merges changed fits =>
    refine ⟨⟨htopology, hpolicy⟩, fun stored' hstores => ?_⟩
    obtain ⟨stored, hmatches, hframe⟩ := hbefore stored' hstores
    rw [replay_detection fits hframe]
    -- the digest changed, so the vector did
    have hdiffers : merged ≠ s.evidence := fun heq => changed (congrArg EvidenceVector.digest heq)
    obtain ⟨hmerged, hbuilt⟩ := EvidenceVector.merged_congr hmatches.entries merges hdiffers
    have hevidence : (stored.takeDetection (s.detectionRecord observation)).evidence = merged := by
      unfold Inputs.takeDetection
      have hsame : stored.evidence.merged ⟨(s.detectionRecord observation).resource,
          (s.detectionRecord observation).state, (s.detectionRecord observation).generation,
          (s.detectionRecord observation).source_digest⟩ = .ok merged := hmerged
      simp only [hsame]
    have hne : merged ≠ EvidenceVector.empty := fun heq =>
      EvidenceVector.empty_not_built (heq ▸ hbuilt)
    exact ⟨hmatches.topology, hmatches.policy, congrArg EvidenceVector.entries hevidence,
      ⟨fun _ hempty => absurd hempty hne, fun _ => hevidence⟩⟩

/-- A snapshot makes the inputs restorable, but gives evidence that was never built a digest. -/
theorem restorable_saved {config : RuntimeConfig} {disk : Disk} {sequence : Sequence}
    {s : RuntimeState} (hsnapshot : disk.snapshot = some (sequence, encodeDurableState s.durable))
    (hlog : disk.log = []) (hfits : (encodeDurableState s.durable).length ≤ kMaxSnapshotPayloadBytes)
    (hcomplete : s.inputs.Complete config) : Restorable config disk s.inputs ∧ BuiltIn config disk := by
  have hsaved := fun stored => @stores_saved config disk sequence s stored hsnapshot hlog hfits
    hcomplete.2
  refine ⟨⟨hcomplete, fun stored hstores => ?_⟩, fun _ stored hstores => ?_⟩
  · obtain ⟨htopology, hpolicy, hentries, hbuilt⟩ := hsaved stored hstores
    refine ⟨htopology, hpolicy, hentries, ?_⟩
    constructor
    · intro hsame hempty
      rw [hsame, hempty] at hbuilt
      exact absurd hbuilt EvidenceVector.empty_not_built
    · intro hnamed
      rcases s.evidence.eq_empty_or_built with hempty | hbuilt'
      · exact absurd (hsnapshot.symm.trans (hnamed hempty)) (by simp)
      · exact hbuilt.ext hbuilt' hentries
  · obtain ⟨-, -, -, hbuilt⟩ := hsaved stored hstores
    exact hbuilt

/-! ## Runs -/

/-- Every process opens the store under one configuration. -/
def Incident.Under (config : RuntimeConfig) : Incident → Prop
  | .event (.open_ config' _ _) | .openStops config' _ _ _ => config' = config
  | .event (.call _ _) | .event (.crash _) => True

/-- Note the inputs in force of a durable runtime. -/
def noteInputs (sys : System) (incident : Incident) (noted : Option Inputs) : Option Inputs :=
  (sys.suffer incident).runtime.elim noted fun s => if s.store.isSome then some s.inputs else noted

/-- A durable runtime that is opened has the inputs that were in force before. -/
def InputsRecovered (p : System × Option Inputs) : Incident → Prop
  | .event (.open_ config env boot) => p.1.runtime = none →
    ∀ s ∈ (openRuntime config env boot p.1.disk).1.toOption, s.store.isSome →
      ∀ inputs ∈ p.2, s.inputs = inputs
  | .event (.call _ _) | .event (.crash _) | .openStops _ _ _ _ => True

/-- When a durable runtime is opened, there is no snapshot unless an observation was taken in before. -/
def SavedEvidence (p : System × Option Inputs) : Incident → Prop
  | .event (.open_ config env boot) => p.1.runtime = none →
    ∀ s ∈ (openRuntime config env boot p.1.disk).1.toOption, s.store.isSome →
      ∀ inputs ∈ p.2, inputs.evidence = EvidenceVector.empty → p.1.disk.snapshot = none
  | .event (.call _ _) | .event (.crash _) | .openStops _ _ _ _ => True

instance SavedEvidence.instDecidable (p : System × Option Inputs) :
    (incident : Incident) → Decidable (SavedEvidence p incident)
  | .event (.open_ config env boot) =>
    have _ : Decidable (∀ s ∈ (openRuntime config env boot p.1.disk).1.toOption, s.store.isSome →
        ∀ inputs ∈ p.2, inputs.evidence = EvidenceVector.empty → p.1.disk.snapshot = none) :=
      have _ : ∀ s : RuntimeState, Decidable (s.store.isSome →
          ∀ inputs ∈ p.2, inputs.evidence = EvidenceVector.empty → p.1.disk.snapshot = none) :=
        fun _ => inferInstanceAs (Decidable (_ → _))
      Option.decidableForallMem _
    inferInstanceAs (Decidable (p.1.runtime = none → _))
  | .event (.call _ _) | .event (.crash _) | .openStops _ _ _ _ => inferInstanceAs (Decidable True)

/-- What keeps the inputs restorable. -/
structure InputsKept (config : RuntimeConfig) (p : System × Option Inputs) : Prop where
  sequenced : Sequenced p.1
  inStep : ∀ s ∈ p.1.runtime, s.InStep
  built : BuiltIn config p.1.disk
  noted : ∀ inputs ∈ p.2, Restorable config p.1.disk inputs
  live : ∀ s ∈ p.1.runtime, s.store.isSome → p.2 = some s.inputs

/-- It is enough that what is in force is restorable, or what was noted where nothing is. -/
theorem InputsKept.of_restorable {config : RuntimeConfig} {sys : System} {incident : Incident}
    {noted : Option Inputs} (hsequenced : Sequenced (sys.suffer incident))
    (hstep : ∀ s ∈ (sys.suffer incident).runtime, s.InStep)
    (hbuilt : BuiltIn config (sys.suffer incident).disk)
    (hlive : ∀ s ∈ (sys.suffer incident).runtime, s.store.isSome →
      Restorable config (sys.suffer incident).disk s.inputs)
    (hold : (∀ s ∈ (sys.suffer incident).runtime, s.store = none) →
      ∀ inputs ∈ noted, Restorable config (sys.suffer incident).disk inputs) :
    InputsKept config (sys.suffer incident, noteInputs sys incident noted) := by
  unfold noteInputs
  cases hrun : (sys.suffer incident).runtime with
  | none =>
    exact ⟨hsequenced, hstep, hbuilt, hold (by simp [hrun]),
      fun s hs => absurd (hrun.symm.trans hs) (by simp)⟩
  | some s =>
    -- only what a durable runtime has in force is noted
    by_cases hdurable : s.store.isSome
    · rw [Option.elim_some, if_pos hdurable]
      refine ⟨hsequenced, hstep, hbuilt, fun inputs hinputs => ?_, fun t ht _ => ?_⟩
      · obtain rfl := Option.some.inj hinputs
        exact hlive s hrun hdurable
      · obtain rfl := Option.some.inj (hrun.symm.trans ht)
        rfl
    · have hnone : ∀ t ∈ (sys.suffer incident).runtime, t.store = none := by
        intro t ht
        obtain rfl := Option.some.inj (hrun.symm.trans ht)
        simpa using hdurable
      rw [Option.elim_some, if_neg hdurable]
      exact ⟨hsequenced, hstep, hbuilt, hold hnone, fun t ht hdurable' =>
        absurd hdurable' (by simp [hnone t ht])⟩

/-- What a process that opens the store leaves of the files. -/
theorem InputsKept.opened {config : RuntimeConfig} {sys : System} {noted : Option Inputs}
    (h : InputsKept config (sys, noted)) {env : Env} {boot : BootIdentity} {disk : Disk}
    (hsnapshot : disk.snapshot = (openRuntime config env boot sys.disk).2.snapshot)
    (hlog : disk.log = (openRuntime config env boot sys.disk).2.log) :
    BuiltIn config disk ∧ ∀ inputs ∈ noted, Restorable config disk inputs := by
  obtain ⟨hkept, added, hadded, hstartup⟩ := @openRuntime_stores config env boot _ h.sequenced.inOrder
  rw [hkept] at hsnapshot
  rw [hadded] at hlog
  refine ⟨h.built.append hsnapshot hlog, fun inputs hinputs => ?_⟩
  refine (h.noted inputs hinputs).append hsnapshot hlog fun stored stored' hstores hcomplete hreplay => ?_
  rcases hstartup with rfl | ⟨s₀, hstores₀, hconfig, hrecords⟩
  · exact (Option.some.inj hreplay).symm
  · obtain rfl := hstores₀.unique hstores
    exact replay_startup hcomplete hconfig hrecords hreplay

/-- An incident that changes nothing keeps the inputs restorable. -/
theorem InputsKept.stays {config : RuntimeConfig} {sys : System} {noted : Option Inputs}
    (h : InputsKept config (sys, noted)) {incident : Incident} (hsame : sys.suffer incident = sys) :
    InputsKept config (sys.suffer incident, noteInputs sys incident noted) := by
  have hsequenced := h.sequenced.suffer incident
  refine .of_restorable hsequenced ?_ ?_ (fun s hs hdurable => ?_) fun _ => ?_ <;>
    rw [hsame] at *
  · exact h.inStep
  · exact h.built
  · exact h.noted _ (h.live s hs hdurable)
  · exact h.noted

/-- So does an open that is stopped in the middle. -/
theorem InputsKept.openStops {config : RuntimeConfig} {sys : System} {noted : Option Inputs}
    (h : InputsKept config (sys, noted)) (env : Env) (boot : BootIdentity) (torn_bytes : ℕ) :
    InputsKept config (sys.suffer (.openStops config env boot torn_bytes),
      noteInputs sys (.openStops config env boot torn_bytes) noted) := by
  have hsequenced := h.sequenced.suffer (.openStops config env boot torn_bytes)
  by_cases hopens : sys.runtime.isNone ∧ config.persist = true
  · have hopened := @InputsKept.opened config sys noted h env boot
      { (openRuntime config env boot sys.disk).2 with torn_bytes := torn_bytes } rfl rfl
    refine .of_restorable hsequenced ?_ ?_ ?_ fun _ => ?_ <;> rw [suffer_openStops hopens]
    · exact fun s hs => absurd hs (by simp)
    · exact hopened.1
    · exact fun s hs => absurd hs (by simp)
    · exact hopened.2
  · exact h.stays (suffer_openStops_live hopens)

/-- So does the end of a process. -/
theorem InputsKept.crash {config : RuntimeConfig} {sys : System} {noted : Option Inputs}
    (h : InputsKept config (sys, noted)) (torn_bytes : ℕ) :
    InputsKept config (sys.suffer (.event (.crash torn_bytes)),
      noteInputs sys (.event (.crash torn_bytes)) noted) := by
  have hsequenced := h.sequenced.suffer (.event (.crash torn_bytes))
  have hsnapshot := diskAfterCrash_snapshot sys torn_bytes
  have hlog : (sys.diskAfterCrash torn_bytes).log = sys.disk.log ++ [] :=
    (diskAfterCrash_log sys torn_bytes).trans (List.append_nil _).symm
  refine .of_restorable hsequenced (fun s hs => ?_) (h.built.append hsnapshot hlog)
    (fun s hs => ?_) fun _ inputs hinputs =>
      (h.noted inputs hinputs).quiet hsnapshot hlog (by simp)
  · exact absurd hs (by simp [System.suffer, next_crash])
  · exact absurd hs (by simp [System.suffer, next_crash])

/-- An open under the configuration has the inputs in force that it recovers. -/
theorem InputsKept.open_ {config : RuntimeConfig} {sys : System} {noted : Option Inputs}
    (h : InputsKept config (sys, noted)) (env : Env) (boot : BootIdentity) :
    InputsKept config (sys.suffer (.event (.open_ config env boot)),
      noteInputs sys (.event (.open_ config env boot)) noted) := by
  have hsequenced := h.sequenced.suffer (.event (.open_ config env boot))
  cases hrun : sys.runtime with
  | some s => exact h.stays (next_open_live hrun _ _ _)
  | none =>
    have hnext : sys.suffer (.event (.open_ config env boot)) = ⟨(openRuntime config env boot
        sys.disk).2, (openRuntime config env boot sys.disk).1.toOption⟩ := next_open hrun _ _ _
    have hopened := @InputsKept.opened config sys noted h env boot _ rfl rfl
    refine .of_restorable hsequenced ?_ ?_ ?_ fun _ => ?_
    · intro s hs
      rw [hnext] at hs
      obtain ⟨s₀, disk₀, -, hstarted, -⟩ := openRuntime_ok (Prod.ext (mem_toOption.mp hs) rfl)
      exact hstarted.inStep
    · rw [hnext]
      exact hopened.1
    · intro s hs hdurable
      obtain ⟨store, hstore⟩ := Option.isSome_iff_exists.mp hdurable
      have hfiles := hsequenced.synced s hs store hstore
      rw [hnext] at hs
      obtain ⟨-, -, htells, hcomplete, -⟩ := openRuntime_tells h.sequenced.inOrder
        (Prod.ext (mem_toOption.mp hs) rfl) hdurable
      refine ⟨hcomplete, fun stored hstores => ?_⟩
      have hbuilt : BuiltIn config (sys.suffer (.event (.open_ config env boot))).disk := by
        rw [hnext]
        exact hopened.1
      rw [← hfiles] at hbuilt hstores ⊢
      obtain rfl := htells store hstore stored hstores
      refine ⟨rfl, rfl, rfl, fun _ hempty => ?_, fun _ => rfl⟩
      by_contra hsome
      exact EvidenceVector.empty_not_built (hempty ▸ hbuilt hsome _ hstores)
    · rw [hnext]
      exact hopened.2

/-- A call has the inputs in force that it publishes, or keeps those that were. -/
theorem InputsKept.call {config : RuntimeConfig} {sys : System} {noted : Option Inputs}
    (h : InputsKept config (sys, noted)) (env : Env) (call : Call) :
    InputsKept config (sys.suffer (.event (.call env call)),
      noteInputs sys (.event (.call env call)) noted) := by
  have hsequenced := h.sequenced.suffer (.event (.call env call))
  cases hrun : sys.runtime with
  | none => exact h.stays (next_call_closed hrun env call)
  | some s =>
    have ho := perform_outcome env s call
    have hnext : (sys.suffer (.event (.call env call))).runtime =
        some (exec (perform env call) s).2 := by
      rw [System.suffer, next_call hrun]
    rcases h.sequenced.synced.calls hrun env call with ⟨-, hnone, hfiles⟩ |
      ⟨store, store', hstore, hdisk, hstore', hfiles, -⟩
    · -- without a store nothing is noted, and the files are left alone
      have hsame : sys.suffer (.event (.call env call)) =
          ⟨sys.disk, some (exec (perform env call) s).2⟩ := by
        rw [System.suffer, next_call hrun]
        exact congrArg (System.mk · _) (by simpa [System.suffer, next_call hrun] using hfiles)
      refine .of_restorable hsequenced (fun t ht => ?_) ?_ (fun t ht hdurable => ?_) fun _ => ?_
      · obtain rfl := Option.some.inj (hnext.symm.trans ht)
        exact ho.inStep (h.inStep s hrun)
      · rw [hsame]
        exact h.built
      · obtain rfl := Option.some.inj (hnext.symm.trans ht)
        exact absurd hdurable (by simp [hnone])
      · rw [hsame]
        exact h.noted
    · have hdurable : s.store.isSome := by simp [hstore]
      have hrestorable := h.noted s.inputs (h.live s hrun hdurable)
      have hafter : BuiltIn config store'.disk ∧
          Restorable config store'.disk (exec (perform env call) s).2.inputs := by
        have hbuilt := h.built
        simp only at hbuilt hrestorable
        rw [← hdisk] at hbuilt hrestorable
        cases ho.inputsStep (h.inStep s hrun) hstore with
        | quiet same grown =>
          rw [hstore'] at grown
          obtain ⟨hsnapshot, -, added, hlog, hadded⟩ := grown.disk
          rw [same]
          exact ⟨hbuilt.append hsnapshot hlog, hrestorable.quiet hsnapshot hlog hadded⟩
        | saved same stored saved =>
          obtain rfl := Option.some.inj (hstore'.symm.trans stored)
          rw [same]
          rcases saved with rfl | ⟨rfl, hfits⟩
          · exact ⟨hbuilt, hrestorable⟩
          · exact (restorable_saved rfl rfl hfits hrestorable.complete).symm
        | published publishes stored =>
          obtain rfl := Option.some.inj (hstore'.symm.trans stored)
          exact ⟨hbuilt.append (by rfl) (by rfl), hrestorable.published (by rfl) (by rfl) publishes⟩
      have hfiles' : (sys.suffer (.event (.call env call))).disk = store'.disk := hfiles
      refine .of_restorable hsequenced (fun t ht => ?_) (hfiles' ▸ hafter.1) (fun t ht _ => ?_)
        fun hvolatile => ?_
      · obtain rfl := Option.some.inj (hnext.symm.trans ht)
        exact ho.inStep (h.inStep s hrun)
      · obtain rfl := Option.some.inj (hnext.symm.trans ht)
        rw [hfiles']
        exact hafter.2
      · exact absurd hstore' (by simp [hvolatile _ hnext])

/-- Every incident keeps the inputs restorable. -/
theorem InputsKept.step {config : RuntimeConfig} {sys : System} {noted : Option Inputs}
    (h : InputsKept config (sys, noted)) {incident : Incident} (hunder : incident.Under config) :
    InputsKept config (sys.suffer incident, noteInputs sys incident noted) := by
  cases incident with
  | openStops config' env boot torn_bytes =>
    obtain rfl : config' = config := hunder
    exact h.openStops env boot torn_bytes
  | event event =>
    cases event with
    | crash torn_bytes => exact h.crash torn_bytes
    | open_ config' env boot =>
      obtain rfl : config' = config := hunder
      exact h.open_ env boot
    | call env call => exact h.call env call

/-- Before anything happens. -/
theorem InputsKept.start (config : RuntimeConfig) : InputsKept config ({}, none) :=
  ⟨.start, fun s hs => absurd hs (by simp), fun hsome => absurd rfl hsome,
    fun inputs hinputs => absurd hinputs (by simp), fun s hs => absurd hs (by simp)⟩

/-- An open recovers the inputs exactly when it finds no evidence that was saved before any was taken
in. -/
theorem InputsKept.recovered_iff {config : RuntimeConfig} {p : System × Option Inputs}
    (h : InputsKept config p) {incident : Incident} (hunder : incident.Under config) :
    InputsRecovered p incident ↔ SavedEvidence p incident := by
  cases incident with
  | openStops => exact Iff.rfl
  | event event =>
    cases event with
    | call | crash => exact Iff.rfl
    | open_ config' env boot =>
      obtain rfl : config' = config := hunder
      refine forall_congr' fun hrun => forall₂_congr fun s hs => forall_congr' fun hdurable =>
        forall₂_congr fun inputs hinputs => ?_
      obtain ⟨stored, hstores, -, -, hkept⟩ := openRuntime_tells h.sequenced.inOrder
        (Prod.ext (mem_toOption.mp hs) rfl) hdurable
      obtain ⟨hcomplete, hmatches⟩ := h.noted inputs hinputs
      have hmatched := hmatches stored hstores
      rw [hkept (hmatched.complete hcomplete)]
      exact hmatched.eq_iff

/-- So it is along a run. -/
theorem InputsKept.along_iff {config : RuntimeConfig} {p : System × Option Inputs}
    (h : InputsKept config p) {incidents : List Incident}
    (hunder : ∀ incident ∈ incidents, incident.Under config) :
    Runs.Along (Runs.observe System.suffer noteInputs) InputsRecovered p incidents ↔
      Runs.Along (Runs.observe System.suffer noteInputs) SavedEvidence p incidents := by
  induction incidents generalizing p with
  | nil => exact Iff.rfl
  | cons incident incidents ih =>
    have hfirst := hunder incident List.mem_cons_self
    exact and_congr (h.recovered_iff hfirst)
      (ih (h.step hfirst) fun later hlater => hunder later (List.mem_cons_of_mem _ hlater))

/-- In a run under one configuration every open recovers the topology, the policy and the evidence that
were in force if and only if none finds a snapshot that was written before any observation was taken
in. -/
theorem inputs_recovered_iff {config : RuntimeConfig} {incidents : List Incident}
    (h : ∀ incident ∈ incidents, incident.Under config) :
    Runs.Along (Runs.observe System.suffer noteInputs) InputsRecovered ({}, none) incidents ↔
      Runs.Along (Runs.observe System.suffer noteInputs) SavedEvidence ({}, none) incidents :=
  (InputsKept.start config).along_iff h

/-- Evidence is recovered from the log, from a snapshot, and from a snapshot and a log. -/
theorem inputs_recovered_iff_observed :
    Runs.Along (Runs.observe System.suffer noteInputs) InputsRecovered ({}, none)
      ([Sample.opens 1, Sample.detects 1 .present, .crash 0, Sample.opens 2, Sample.does .checkpoint,
        .crash 3, Sample.opens 3, Sample.detects 2 .absent, .crash 0, Sample.opens 4].map
          Incident.event) :=
  (@inputs_recovered_iff Sample.config _ (by simp [Incident.Under, Sample.opens, Sample.detects,
    Sample.does])).mpr (by decide +kernel)

/-- A runtime that has observed nothing writes a snapshot, and the next incarnation has evidence with
another digest. -/
theorem evidence_not_recovered : ¬ ∀ (config : RuntimeConfig) (incidents : List Incident),
    validatePolicy config.policy = .ok () → (∀ incident ∈ incidents, incident.Under config) →
      (∀ env observation, Incident.event (.call env (.recordDetection observation)) ∈ incidents →
        isValidResourceId observation.resource = true) →
      Runs.Along (Runs.observe System.suffer noteInputs) InputsRecovered ({}, none) incidents := by
  intro h
  let config : RuntimeConfig := { Sample.config with policy := defaultPolicy }
  let incidents : List Incident := [.event (.open_ config Sample.env (Sample.boot 1)),
    .event (Sample.does .checkpoint), .event (.crash 0),
    .event (.open_ config Sample.env (Sample.boot 2))]
  have hunder : ∀ incident ∈ incidents, incident.Under config := by
    simp [incidents, Incident.Under, Sample.does]
  have hrecovered := h config incidents (by decide +kernel) hunder
    (by simp [incidents, Sample.does])
  have hsaved := ((InputsKept.start config).along_iff hunder).mp hrecovered
  revert hsaved
  decide +kernel

end Fcfn
