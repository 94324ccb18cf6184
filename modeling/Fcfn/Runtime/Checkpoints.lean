import Fcfn.Runtime.Decisions
import Fcfn.Runtime.Lineage

/-!
# Checkpoints

A checkpoint replaces the log by a snapshot, so a snapshot that is refused loses the store. Its
writer checks one bound, its reader others. `checkpoints_recoverable_iff` says what of a state lies
between the two. -/

namespace Fcfn

open Words Codec Stateful RuntimeState DurableStore Tables

/-! ## What every state has -/

/-- What is in a state is written as it would be read back, as far as its identities go. -/
structure RuntimeState.Canonical (s : RuntimeState) : Prop where
  attempts : ∀ attempt ∈ s.attempts, attempt.explanation.Canonical
  transitions : ∀ decision ∈ s.transitions, decision.explanation.Canonical
  plans : ∀ plan ∈ s.plans, ∀ member ∈ plan.boundary.members,
    ContainmentBoundary.Canonical member
  boundary : ∀ boundary ∈ s.boundary, ∀ member ∈ boundary.members,
    ContainmentBoundary.Canonical member

/-- What is decoded is canonical. -/
theorem ReplayedFrame.canonical {s s' : RuntimeState} {frame : Frame}
    (h : ReplayedFrame s frame s') (hs : s.Canonical) : s'.Canonical := by
  obtain ⟨hattempts, htransitions, hplans, hboundary⟩ := hs
  cases h with
  | topology => split <;> exact ⟨hattempts, htransitions, hplans, hboundary⟩
  | policy => split <;> exact ⟨hattempts, htransitions, hplans, hboundary⟩
  | epoch => split <;> exact ⟨hattempts, htransitions, hplans, hboundary⟩
  | plan _ decoded =>
    refine ⟨hattempts, htransitions, fun plan hmem => ?_, hboundary⟩
    rcases List.mem_append.mp hmem with hold | hnew
    · exact hplans plan hold
    · obtain rfl := List.mem_singleton.mp hnew
      exact (ContainmentPlan.decode_decodable decoded).members_canonical
  | transition _ decoded =>
    refine ⟨hattempts, fun decision hmem => ?_, hplans, hboundary⟩
    rcases List.mem_append.mp hmem with hold | hnew
    · exact htransitions decision hold
    · obtain rfl := List.mem_singleton.mp hnew
      exact decodeTransition_returns decoded
  | attempt _ decoded =>
    have hcanonical := decodeAttempt_returns decoded
    unfold replayAttempt
    split
    · refine ⟨fun attempt hmem => ?_, htransitions, hplans, hboundary⟩
      rcases List.mem_append.mp hmem with hold | hnew
      · exact hattempts attempt hold
      · exact List.mem_singleton.mp hnew ▸ hcanonical
    · split
      · refine ⟨fun attempt hmem => ?_, htransitions, hplans, hboundary⟩
        rcases mem_updateFirst hmem with hold | ⟨-, -, rfl⟩
        · exact hattempts attempt hold
        · exact hcanonical
      · exact ⟨hattempts, htransitions, hplans, hboundary⟩
  | @boundary decision =>
    refine ⟨hattempts, htransitions, hplans, fun boundary hmem => ?_⟩
    unfold replayBoundary at hmem
    simp only at hmem
    split at hmem
    · exact absurd hmem (by simp)
    · split at hmem
      · rename_i decoded hdecoded
        obtain rfl := Option.some.inj hmem
        exact (ContainmentBoundary.decode_returns hdecoded).2
      · exact hboundary boundary hmem
  | _ => exact ⟨hattempts, htransitions, hplans, hboundary⟩

/-- A part that is decoded when it is there. -/
theorem decodePart_eq_some {α : Type} {decode : Bytes → Result α} {bytes : Bytes} {part : α}
    (h : decodePart decode bytes = .ok (some part)) : decode bytes = .ok part := by
  unfold decodePart at h
  split at h
  · exact absurd h (by simp)
  · simp only [bind_eq_ok, pure_eq_ok] at h
    obtain ⟨part', hdecode, heq⟩ := h
    exact Option.some.inj heq ▸ hdecode

/-- Every state that is recovered is canonical. -/
theorem recover_canonical {config : RuntimeConfig} {disk disk' : Disk} {s : RuntimeState}
    (h : recover config disk = (.ok s, disk')) : s.Canonical := by
  have hinitial : ∀ store sequence, ({ RuntimeState.initial config with
      store := store, sequence := sequence } : RuntimeState).Canonical := by
    intro store sequence
    constructor <;> simp [RuntimeState.initial]
  rcases recover_ok h with ⟨-, recovery, hopen, hrestore, -⟩ | ⟨-, rfl, -⟩
  · obtain ⟨s₀, hfrom, hreplay⟩ := restore_ok hrestore
    refine replay_induction (fun _ _ _ _ hframe hs => hframe.canonical hs) hreplay ?_
    unfold restoreFrom at hfrom
    split at hfrom
    · obtain rfl := Except.ok.inj hfrom
      exact hinitial _ _
    · obtain ⟨restored, topology, policy, evidence, boundary, hdecoded, -, -, -, hboundary, rfl⟩ :=
        restoreSnapshot_ok hfrom
      have hreadable := DurableState.readable_of_decode hdecoded
      refine ⟨hreadable.attempts.2, hreadable.transitions.2,
        fun plan hmem => (hreadable.plans.2 plan hmem).members_canonical, fun b hb => ?_⟩
      obtain rfl : boundary = some b := hb
      exact (ContainmentBoundary.decode_returns (decodePart_eq_some hboundary)).2
  · exact hinitial none 0

/-- A startup keeps a state canonical. -/
theorem Started.canonical {s s' : RuntimeState} {boot : BootIdentity}
    (h : Started (s.incarnate boot) s') (hs : s.Canonical) : s'.Canonical := by
  have hsame := h.same
  refine ⟨fun attempt hmem => ?_, fun decision hmem => ?_, fun plan hmem => ?_, fun b hb => ?_⟩
  · rw [hsame.attempts] at hmem
    obtain ⟨before, hbefore, rfl⟩ := List.mem_map.mp (mem_of_mem_dropExcess hmem)
    unfold fenceAttempt
    split
    · exact hs.attempts before hbefore
    · exact (Explanation.canonical_add _ _ _).mpr Explanation.canonical_empty
  · rw [hsame.transitions] at hmem
    exact hs.transitions decision (mem_of_mem_dropExcess hmem)
  · rw [hsame.plans] at hmem
    exact hs.plans plan (mem_of_mem_dropExcess hmem)
  · rw [hsame.boundary] at hb
    exact hs.boundary b hb

/-- The checks of a transition add to the explanation of its decision. -/
theorem checkKind_explained {s : RuntimeState} {kind : TransitionKind} {plan : ContainmentPlan}
    {decision : TransitionDecision} {refusal : Refusal}
    (h : s.checkKind kind plan decision = .error refusal) : refusal.decision = decision := by
  unfold checkKind at h
  cases kind <;> simp only at h <;> split at h
  all_goals first
    | (obtain rfl := Except.error.inj h; rfl)
    | exact absurd h (by simp)

/-- A refusal keeps the explanation that the decision had, and its generation. -/
theorem checkTransition_error_explained {s : RuntimeState} {request : TransitionRequest}
    {decision : TransitionDecision} {refusal : Refusal}
    (h : s.checkTransition request decision = .error refusal) :
    refusal.decision.explanation = decision.explanation ∧
      refusal.decision.generation = decision.generation := by
  unfold checkTransition at h
  split at h
  · obtain rfl := Except.error.inj h
    exact ⟨rfl, rfl⟩
  · simp only at h
    split at h
    · obtain rfl := Except.error.inj h
      exact ⟨rfl, rfl⟩
    split at h
    · obtain rfl := Except.error.inj h
      exact ⟨rfl, rfl⟩
    split at h
    · obtain rfl := Except.error.inj h
      exact ⟨rfl, rfl⟩
    split at h
    · obtain rfl := Except.error.inj h
      exact ⟨rfl, rfl⟩
    split at h
    · rename_i refusal' hkind
      obtain rfl := Except.error.inj h
      rw [checkKind_explained hkind]
      exact ⟨rfl, rfl⟩
    split at h
    · obtain rfl := Except.error.inj h
      exact ⟨rfl, rfl⟩
    · exact absurd h (by simp)

/-- An accepted decision adds to it, and keeps the generation. -/
theorem checkTransition_ok_explained {s : RuntimeState} {request : TransitionRequest}
    {decision decision' : TransitionDecision} {plan : ContainmentPlan}
    (h : s.checkTransition request decision = .ok (plan, decision')) :
    decision'.explanation = decision.explanation.add .transitionAccepted request.kind.token ∧
      decision'.generation = decision.generation := by
  unfold checkTransition at h
  split at h
  · exact absurd h (by simp)
  · simp only at h
    split at h
    · exact absurd h (by simp)
    split at h
    · exact absurd h (by simp)
    split at h
    · exact absurd h (by simp)
    split at h
    · exact absurd h (by simp)
    split at h
    · exact absurd h (by simp)
    split at h
    · exact absurd h (by simp)
    · obtain ⟨-, rfl⟩ := Prod.mk.inj (Except.ok.inj h)
      exact ⟨rfl, rfl⟩

/-- The transitions of a later state are those of an earlier one, or explained. -/
def Explains (s s' : RuntimeState) : Prop :=
  ∀ decision ∈ s'.transitions, decision ∈ s.transitions ∨ decision.explanation.Canonical

/-- Only the transitions of the earlier state matter. -/
theorem Explains.congr {s s₁ s' : RuntimeState} (h : Explains s₁ s')
    (hsame : s₁.transitions = s.transitions) : Explains s s' := by
  unfold Explains at h ⊢
  rwa [hsame] at h

/-- Recording a refusal explains it. -/
theorem explains_refuseTransition (env : Env) {refusal : Refusal}
    (h : refusal.decision.explanation.Canonical) (s : RuntimeState) :
    Explains s (exec (refuseTransition env refusal) s).2 := by
  simp only [refuseTransition, exec_bind, exec_get]
  rcases exec_commit env .transitionDecision (encodeTransition { refusal.decision with
      status := refusal.status
      code := refusal.code
      explanation := refusal.decision.explanation.add refusal.reason refusal.text
      sequence := s.sequence }) s with ⟨hc, -⟩ | ⟨⟨status, hc⟩, -⟩
  · simp only [hc, exec_modify, exec_pure]
    intro decision hmem
    rcases List.mem_append.mp (mem_of_mem_dropExcess hmem) with hold | hnew
    · exact Or.inl hold
    · obtain rfl := List.mem_singleton.mp hnew
      exact Or.inr ((Explanation.canonical_add _ _ _).mpr h)
  · simp only [hc]
    exact fun decision hmem => Or.inl hmem

/-- Recording an accepted decision keeps its explanation. -/
theorem explains_acceptTransition (env : Env) (plan : ContainmentPlan)
    {decision : TransitionDecision} (h : decision.explanation.Canonical) (s : RuntimeState) :
    Explains s (exec (acceptTransition env plan decision) s).2 := by
  simp only [acceptTransition, exec_bind]
  rcases exec_commit env .transitionDecision (encodeTransition decision) s with
    ⟨hc, -⟩ | ⟨⟨status, hc⟩, -⟩
  · simp only [hc, exec_get]
    generalize hs₁ : s.committed .transitionDecision (encodeTransition decision) = s₁
    have hsame : s₁.transitions = s.transitions := by rw [← hs₁]; rfl
    generalize hrecord : boundaryRecord plan { decision with sequence := s₁.sequence } = record
    rcases exec_commit env .boundaryDecision (encodeBoundaryDecision record) s₁ with
      ⟨hc', -⟩ | ⟨⟨status, hc'⟩, -⟩
    · simp only [hc', exec_modify, exec_pure]
      intro decision' hmem
      rcases List.mem_append.mp (mem_of_mem_dropExcess hmem) with hold | hnew
      · exact Or.inl (hsame ▸ hold)
      · obtain rfl := List.mem_singleton.mp hnew
        exact Or.inr h
    · simp only [hc']
      exact fun decision' hmem => Or.inl (hsame ▸ hmem)
  · simp only [hc]
    exact fun decision' hmem => Or.inl hmem

/-- A transition is explained, whatever comes of it. -/
theorem explains_transition (env : Env) (request : TransitionRequest) (s : RuntimeState) :
    Explains s (exec (perform env (.transition request)) s).2 := by
  have hstart : (s.countTransition.startDecision request).explanation.Canonical :=
    Explanation.canonical_empty
  have hunauthorized : ∀ status, (authorizationRefusal status
      (s.countTransition.startDecision request)).decision.explanation.Canonical :=
    fun _ => hstart
  -- counting and fencing leave the decisions, so it is enough to look at what is recorded
  have hcounted : ∀ {s₁ s' : RuntimeState}, Explains s₁ s' → s₁.transitions = s.transitions →
      Explains s s' := fun h hsame => h.congr hsame
  rw [perform, exec_map]
  generalize hexec : exec (transition env request) s = result
  obtain ⟨r, s'⟩ := result
  simp only [transition, exec_bind, exec_modify, exec_get, exec_set] at hexec
  rcases validateAuthorization_spec s.countTransition env.now_millis request.authorization false with
    ⟨record, hv⟩ | ⟨status, hv | hv⟩
  · simp only [hv] at hexec
    cases hcheck : s.countTransition.checkTransition request
        (s.countTransition.startDecision request) with
    | error refusal =>
      have hcanonical : refusal.decision.explanation.Canonical := by
        rw [(checkTransition_error_explained hcheck).1]
        exact hstart
      have hexplains := explains_refuseTransition env hcanonical s.countTransition
      simp only [hcheck] at hexec
      rw [hexec] at hexplains
      exact hcounted hexplains rfl
    | ok checked =>
      obtain ⟨plan, decision⟩ := checked
      have hcanonical : decision.explanation.Canonical := by
        rw [(checkTransition_ok_explained hcheck).1]
        exact (Explanation.canonical_add _ _ _).mpr hstart
      have hexplains := explains_acceptTransition env plan hcanonical s.countTransition
      simp only [hcheck] at hexec
      rw [hexec] at hexplains
      exact hcounted hexplains rfl
  · have hexplains := explains_refuseTransition env (hunauthorized status) s.countTransition
    simp only [hv] at hexec
    rw [hexec] at hexplains
    exact hcounted hexplains rfl
  · have hexplains := explains_refuseTransition env (hunauthorized status)
      (s.countTransition.fenceAuthorization request.authorization)
    simp only [hv] at hexec
    rw [hexec] at hexplains
    exact hcounted hexplains rfl

/-- The other calls decide on no transition. -/
theorem Outcome.transitions {env : Env} {s s' : RuntimeState} {call : Call} {reply : Result Reply}
    (h : Outcome env s call reply s') (hnot : ∀ request, call ≠ .transition request) :
    ∀ decision ∈ s'.transitions, decision ∈ s.transitions := by
  intro decision hmem
  cases h with
  | transitionFailed | transitionRefused | transitionHalved | transitionAccepted =>
    exact absurd rfl (hnot _)
  | detected => exact mem_of_mem_dropExcess hmem
  | planned => exact mem_of_mem_dropExcess hmem
  | submitted => exact mem_of_mem_dropExcess hmem
  | ackMismatched _ _ _ taken => rcases taken with rfl | ⟨-, rfl⟩ <;> exact hmem
  | verified =>
    rw [adoptVerified_eq] at hmem
    exact hmem
  | _ => exact hmem

/-- A call keeps a state canonical. -/
theorem canonical_call {env : Env} {s : RuntimeState} {call : Call} (hs : s.Canonical) :
    (exec (perform env call) s).2.Canonical := by
  have ho := perform_outcome env s call
  refine ⟨fun attempt hmem => ?_, fun decision hmem => ?_, fun plan hmem => ?_, ?_⟩
  · rcases ho.mem_attempts hmem with hold | hwrites
    · exact hs.attempts attempt hold
    · exact hwrites.canonical hs.attempts
  -- only a transition adds a decision
  · by_cases htransition : ∃ request, call = .transition request
    · obtain ⟨request, rfl⟩ := htransition
      rcases explains_transition env request s decision hmem with hold | hcanonical
      · exact hs.transitions decision hold
      · exact hcanonical
    · exact hs.transitions decision (ho.transitions (fun request h => htransition ⟨request, h⟩)
        decision hmem)
  · rcases List.mem_append.mp (ho.plans.subset hmem) with hold | hnew
    · exact hs.plans plan hold
    · obtain ⟨-, ⟨t, -, hcomputed⟩, -⟩ := ho.computed (Option.mem_toList.mp hnew)
      -- a plan that was computed without a boundary has the unset one
      rcases nextPlan_ownBoundary hcomputed with hunset | hown
      · rw [plan.boundary.eq_unset hunset]
        exact fun member hmember => absurd hmember (by simp [ContainmentBoundary.unset])
      · exact hown.canonical
  · intro boundary hboundary
    cases ho.decision with
    | same same => exact hs.boundary boundary (same.boundary ▸ hboundary)
    | enacted _ enacted =>
      rw [enacted.boundary] at hboundary
      split at hboundary
      · exact absurd hboundary (by simp)
      · obtain rfl := Option.some.inj hboundary
        exact hs.plans _ (findPlan_generation enacted.found).2
    | adopted adopted =>
      rw [adopted.boundary] at hboundary
      obtain rfl := Option.some.inj hboundary
      exact hs.plans _ (findPlan_generation adopted.found).2

/-- What a state keeps within the bounds of the snapshot's tables: the configuration bounds the plans
and the attempts, but not the transitions and the detections. -/
structure RuntimeState.Bounded (s : RuntimeState) : Prop where
  config : checkConfig s.config = .ok ()
  plans : s.plans.length ≤ s.config.max_retained_plans
  attempts : s.attempts.length ≤ s.config.max_retained_attempts
  fenced_boots : s.fenced_boots.length ≤ kMaxFencedBoots

/-- What a configuration that is accepted bounds. -/
theorem checkConfig_ok {config : RuntimeConfig} (h : checkConfig config = .ok ()) :
    config.max_retained_plans ≤ kMaxRetainedPlans ∧
      config.max_retained_attempts ≤ kMaxRetainedAttempts := by
  simp only [checkConfig, require_bind_eq_ok, Bool.and_eq_true, decide_eq_true_eq] at h
  exact ⟨h.1.2, h.2.1.2⟩

/-- Eviction bounds the tables. -/
theorem bounded_evictBoundedTables {s : RuntimeState} (h : checkConfig s.config = .ok ()) :
    (evictBoundedTables s).Bounded := by
  unfold evictBoundedTables
  refine ⟨h, ?_, ?_, ?_⟩
  · simp only [length_dropExcess_le]
  · simp only [length_dropExcess_le]
  · simp only [length_dropExcess_le]

/-- A state is recovered under the configuration. -/
theorem recover_config {config : RuntimeConfig} {disk disk' : Disk} {s : RuntimeState}
    (h : recover config disk = (.ok s, disk')) : s.config = config := by
  rcases recover_ok h with ⟨-, recovery, -, hrestore, -⟩ | ⟨-, rfl, -⟩
  · exact (restore_store hrestore).2
  · rfl

/-- A runtime that opened is bounded. -/
theorem openRuntime_bounded {config : RuntimeConfig} {env : Env} {boot : BootIdentity}
    {disk disk' : Disk} {s : RuntimeState}
    (h : openRuntime config env boot disk = (.ok s, disk')) : s.Bounded := by
  obtain ⟨s₀, disk₀, hrecover, hstarted, -⟩ := openRuntime_ok h
  have hconfig : checkConfig s₀.config = .ok () := by
    rw [recover_config hrecover]
    unfold recover at hrecover
    split at hrecover
    · exact absurd (Prod.mk.inj hrecover).1 (by simp)
    · assumption
  have hsame := hstarted.same
  cases hstarted with
  | volatile hconfigured => exact bounded_evictBoundedTables (hsame.config ▸ hconfig)
  | durable hconfigured => exact bounded_evictBoundedTables (hsame.config ▸ hconfig)

/-- A call keeps a state bounded. -/
theorem Outcome.bounded {env : Env} {s s' : RuntimeState} {call : Call} {reply : Result Reply}
    (h : Outcome env s call reply s') (hs : s.Bounded) : s'.Bounded := by
  have hconfig : checkConfig s'.config = .ok () := by
    rw [h.incarnation.2.2]
    exact hs.config
  obtain ⟨-, hplans, hattempts, hfenced⟩ := hs
  have hset : ∀ id attempt, (s.setAttempt id attempt).attempts.length ≤
      s.config.max_retained_attempts := by
    intro id attempt
    rw [setAttempt, length_updateFirst]
    exact hattempts
  -- what adds to a table evicts from it, and a report changes an attempt in its place
  cases h with
  | @detected observation merged =>
    have hpublished : ((s.committed .detectionRecord (encodeDetection
        (s.detectionRecord observation))).publishEvidence merged
          (s.detectionRecord observation)).Bounded := bounded_evictBoundedTables hconfig
    generalize (s.committed .detectionRecord (encodeDetection
      (s.detectionRecord observation))).publishEvidence merged
        (s.detectionRecord observation) = published at hpublished
    exact ⟨hpublished.config, hpublished.plans, hpublished.attempts, hpublished.fenced_boots⟩
  | planned => exact bounded_evictBoundedTables hconfig
  | transitionFailed _ _ counted =>
    rcases counted with rfl | rfl <;> exact ⟨hconfig, hplans, hattempts, hfenced⟩
  | transitionRefused => exact bounded_evictBoundedTables hconfig
  | transitionAccepted => exact bounded_evictBoundedTables hconfig
  | submitted => exact bounded_evictBoundedTables hconfig
  | ackMismatched _ _ _ taken =>
    rcases taken with rfl | ⟨-, rfl⟩ <;> exact ⟨hconfig, hplans, hset _ _, hfenced⟩
  | ackFailed => exact ⟨hconfig, hplans, hset _ _, hfenced⟩
  | acknowledged => exact ⟨hconfig, hplans, hset _ _, hfenced⟩
  | verifyFailed => exact ⟨hconfig, hplans, hset _ _, hfenced⟩
  | verifyMismatched => exact ⟨hconfig, hplans, hset _ _, hfenced⟩
  | verified =>
    rw [adoptVerified_eq] at hconfig ⊢
    exact ⟨hconfig, hplans, hset _ _, hfenced⟩
  | _ => exact ⟨hconfig, hplans, hattempts, hfenced⟩

/-! ## The snapshot of a state -/

/-- The next open does not refuse the snapshot of a store: it is read back, and put into the state
with all its parts. -/
def SnapshotAccepted (disk : Disk) : Prop :=
  ∃ sequence payload, readSnapshot disk = .ok (sequence, payload) ∧
    ∀ s, (restoreFrom s payload).isOk

/-- What a checkpoint would have to check of a state. -/
structure RuntimeState.Checkpointable (s : RuntimeState) : Prop where
  fits : (encodeDurableState s.durable).length ≤ kMaxRecordPayloadBytes
  transitions : s.transitions.length ≤ kMaxRetainedTransitions
  detections : s.detections.length ≤ kMaxRetainedDetections
  resources : ∀ record ∈ s.detections, isValidResourceId record.resource = true
  evidence : s.evidence.Canonical
  policy : validatePolicy s.policy = .ok ()
  boundary : ∀ boundary ∈ s.boundary, boundary.generation ≠ 0

/-- The plans that a state retains are decoded again, each by itself. -/
def RuntimeState.PlansDecode (s : RuntimeState) : Prop :=
  ∀ plan ∈ s.plans, (ContainmentPlan.decode plan.encode).isOk

/-- A part that is encoded in at least a byte is decoded. -/
theorem decodePart_encode {α : Type} {decode : Bytes → Result α} {bytes : Bytes} {part : α}
    (h : decode bytes = .ok part) (hne : bytes ≠ []) :
    decodePart decode bytes = .ok (some part) := by
  unfold decodePart
  rw [if_neg hne, h]
  rfl

/-- The plans of a state that are decoded at all are decodable. -/
theorem RuntimeState.PlansDecode.decodable {s : RuntimeState} (h : s.PlansDecode)
    (hfits : (encodeDurableState s.durable).length ≤ kMaxRecordPayloadBytes) :
    ∀ plan ∈ s.plans, plan.Decodable := by
  intro plan hmem
  have hplan : plan.encode.length ≤ (encodeDurableState s.durable).length := by
    have htable : plan.encode.length ≤ (encodeTable ContainmentPlan.encode s.plans).length :=
      length_le_encodeTable hmem
    simp only [encodeDurableState, durable, List.length_append]
    omega
  have hdecode := eq_ok_value (h plan hmem)
  have hlen : plan.encode.length < 2 ^ 32 := lt_of_le_of_lt (hplan.trans hfits) (by decide)
  rw [ContainmentPlan.decode_recovers hlen hdecode] at hdecode
  exact ContainmentPlan.decode_decodable hdecode

/-- The parts of the payload that are not empty when they are there. -/
theorem encode_ne_nil :
    (∀ t : Topology, t.encode ≠ []) ∧ (∀ policy : ContainmentPolicy, policy.encode ≠ []) ∧
      (∀ v : EvidenceVector, v.encode ≠ []) ∧ ∀ b : ContainmentBoundary, b.encode ≠ [] := by
  refine ⟨fun t h => ?_, fun policy h => ?_, fun v h => ?_, fun b h => ?_⟩
  · have hlength := congrArg List.length h
    simp [Topology.encode, Write.u64] at hlength
  · have hlength := congrArg List.length h
    simp [ContainmentPolicy.encode, Write.u64] at hlength
  · have hlength := congrArg List.length h
    simp [EvidenceVector.encode, encodeEntries, Write.size, Write.u32] at hlength
  · have hlength := congrArg List.length h
    simp [ContainmentBoundary.encode, encodeMembers, Write.u64] at hlength

/-- The payload of a state that would be checked is restored. -/
theorem RuntimeState.Checkpointable.accepted {s : RuntimeState} (h : s.Checkpointable)
    (hcanonical : s.Canonical) (hbounded : s.Bounded) (hplans : s.PlansDecode)
    (sequence : Sequence) :
    SnapshotAccepted ⟨some (sequence, encodeDurableState s.durable), [], 0⟩ := by
  obtain ⟨htopology_ne, hpolicy_ne, hevidence_ne, hboundary_ne⟩ := encode_ne_nil
  obtain ⟨hplans_le, hattempts_le⟩ := checkConfig_ok hbounded.config
  -- the tables are within the bounds of the reader, and their entries are those it decodes
  have hreadable : s.durable.Readable :=
    ⟨⟨hbounded.plans.trans hplans_le, hplans.decodable h.fits⟩,
      ⟨hbounded.attempts.trans hattempts_le, hcanonical.attempts⟩,
      ⟨h.transitions, hcanonical.transitions⟩, ⟨h.detections, h.resources⟩, hbounded.fenced_boots⟩
  have hdecoded := decodeDurableState_encode h.fits hreadable
  have htopology : decodePart Topology.decode s.durable.topology_bytes = .ok s.topology := by
    unfold durable
    cases ht : s.topology with
    | none => rfl
    | some t => exact decodePart_encode t.decode_encode (htopology_ne t)
  have hpolicy : decodePart ContainmentPolicy.decode s.durable.policy_bytes =
      .ok (some s.policy) := by
    refine decodePart_encode ?_ (hpolicy_ne s.policy)
    show ContainmentPolicy.decode s.policy.encode = _
    rw [s.policy.decode_encode, h.policy]
    rfl
  obtain ⟨evidence, hdecode, -, -⟩ := EvidenceVector.decode_encode h.evidence
  have hevidence : decodePart EvidenceVector.decode s.durable.evidence_bytes =
      .ok (some evidence) := decodePart_encode hdecode (hevidence_ne s.evidence)
  have hboundary : decodePart ContainmentBoundary.decode s.durable.boundary_bytes =
      .ok s.boundary := by
    unfold durable
    cases hb : s.boundary with
    | none => rfl
    | some b =>
      exact decodePart_encode (ContainmentBoundary.decode_encode (h.boundary b hb)
        (hcanonical.boundary b hb)) (hboundary_ne b)
  refine ⟨sequence, encodeDurableState s.durable, ?_, fun s' => ?_⟩
  · have hheader : kRecordHeaderBytes + kMaxRecordPayloadBytes ≤ kMaxSnapshotPayloadBytes := by
      decide
    have hfits := h.fits
    unfold readSnapshot
    simp only [require_bind_eq_ok, decide_eq_true_eq]
    exact ⟨by omega, hfits, rfl⟩
  · unfold restoreFrom
    rw [if_neg (encodeDurableState_ne_nil _)]
    simp only [restoreSnapshot, hdecoded, htopology, hpolicy, hevidence, hboundary, bind,
      Except.bind]
    rfl

/-- And only such a payload. -/
theorem RuntimeState.checkpointable_of_accepted {s : RuntimeState} {sequence : Sequence}
    (h : SnapshotAccepted ⟨some (sequence, encodeDurableState s.durable), [], 0⟩) :
    s.Checkpointable := by
  obtain ⟨htopology_ne, hpolicy_ne, hevidence_ne, hboundary_ne⟩ := encode_ne_nil
  obtain ⟨sequence', payload, hread, hrestore⟩ := h
  unfold readSnapshot at hread
  simp only [require_bind_eq_ok, decide_eq_true_eq, pure_eq_ok, Prod.mk.injEq] at hread
  obtain ⟨-, hfits, -, rfl⟩ := hread
  have hlen : (encodeDurableState s.durable).length < 2 ^ 32 := lt_of_le_of_lt hfits (by decide)
  obtain ⟨s', hrestored⟩ : ∃ s', restoreFrom s (encodeDurableState s.durable) = .ok s' :=
    ⟨_, eq_ok_value (hrestore s)⟩
  unfold restoreFrom at hrestored
  rw [if_neg (encodeDurableState_ne_nil _)] at hrestored
  obtain ⟨restored, topology, policy, evidence, boundary, hdecoded, -, hpolicy, hevidence,
    hboundary, -⟩ := restoreSnapshot_ok hrestored
  obtain rfl := decodeDurableState_recovers hlen hdecoded
  have hreadable := DurableState.readable_of_decode hdecoded
  -- the tables were read; what is saved as a blob is decoded on its own
  refine ⟨hfits, hreadable.transitions.1, hreadable.detections.1, hreadable.detections.2, ?_, ?_,
    fun b hb => ?_⟩
  · have hne : s.durable.evidence_bytes ≠ [] := hevidence_ne s.evidence
    have hevidence_len : s.evidence.encode.length < 2 ^ 32 := by
      simp only [encodeDurableState, durable, List.length_append, Write.blob] at hlen
      omega
    unfold decodePart at hevidence
    rw [if_neg hne] at hevidence
    simp only [bind_eq_ok, pure_eq_ok] at hevidence
    obtain ⟨vector, hdecode, -⟩ := hevidence
    exact EvidenceVector.canonical_of_decode hevidence_len hdecode
  · have hne : s.durable.policy_bytes ≠ [] := hpolicy_ne s.policy
    unfold decodePart at hpolicy
    rw [if_neg hne] at hpolicy
    simp only [bind_eq_ok, pure_eq_ok] at hpolicy
    obtain ⟨saved, hdecode, -⟩ := hpolicy
    have hdecode : ContainmentPolicy.decode s.policy.encode = .ok saved := hdecode
    rw [s.policy.decode_encode] at hdecode
    cases hvalid : validatePolicy s.policy with
    | error status =>
      rw [hvalid] at hdecode
      exact absurd hdecode (by simp [Except.map])
    | ok u => rfl
  · intro hunset
    have hbytes : s.durable.boundary_bytes = ContainmentBoundary.unset.encode := by
      unfold durable
      rw [Option.mem_def.mp hb, b.eq_unset hunset]
      rfl
    unfold decodePart at hboundary
    -- the unset boundary is written, but it is never created again
    rw [hbytes, if_neg (hboundary_ne _), ContainmentBoundary.decode_encode_unset] at hboundary
    exact absurd hboundary (by simp [fail, bind, Except.bind])

/-! ## Runs -/

/-- A checkpoint that succeeds, in a state whose plans are decoded each by itself, writes a snapshot
that the next open does not refuse. -/
def CheckpointRecoverable (s : RuntimeState) (env : Env) : Call → Prop
  | .checkpoint => (exec (perform env .checkpoint) s).1.isOk → s.PlansDecode →
    ∀ store ∈ (exec (perform env .checkpoint) s).2.store, SnapshotAccepted store.disk
  | _ => True

/-- A checkpoint whose snapshot is published, in such a state, saves what passes the checks of its
reader. -/
def SavesCheckpointable (s : RuntimeState) (env : Env) : Call → Prop
  | .checkpoint => s.store.isSome → env.snapshot = .published →
    (encodeDurableState s.durable).length ≤ kMaxSnapshotPayloadBytes → s.PlansDecode →
      s.Checkpointable
  | _ => True

/-- What a checkpoint of a durable runtime does when its snapshot is published. -/
theorem exec_checkpoint_published {env : Env} {s : RuntimeState} {store : DurableStore}
    (hstore : s.store = some store) (hpublished : env.snapshot = .published)
    (hlen : (encodeDurableState s.durable).length ≤ kMaxSnapshotPayloadBytes) :
    exec (perform env .checkpoint) s = (.ok .checkpointed, { s with
      store := some { store with
        disk := ⟨some (store.last_sequence, encodeDurableState s.durable), [], 0⟩ }
      sequence := store.last_sequence }) := by
  have hwrite : store.writeSnapshot env.snapshot (encodeDurableState s.durable) = (.ok (),
      { store with disk := ⟨some (store.last_sequence, encodeDurableState s.durable), [], 0⟩ }) := by
    unfold writeSnapshot
    rw [if_neg (not_lt.mpr hlen), hpublished]
  simp only [perform, exec_map, checkpoint, exec_bind, exec_get, hstore, hwrite, exec_set, exec_lift,
    exec_modify, Except.map]

/-- A checkpoint that succeeds has published its snapshot. -/
theorem published_of_isOk {env : Env} {s : RuntimeState}
    (h : (exec (perform env .checkpoint) s).1.isOk) :
    ∃ store, s.store = some store ∧ env.snapshot = .published ∧
      (encodeDurableState s.durable).length ≤ kMaxSnapshotPayloadBytes := by
  simp only [perform, exec_map, checkpoint, exec_bind, exec_get] at h
  cases hstore : s.store with
  | none =>
    simp only [hstore] at h
    exact absurd h (by simp [Except.map, Except.isOk, Except.toBool])
  | some store =>
    refine ⟨store, rfl, ?_⟩
    cases hw : store.writeSnapshot env.snapshot (encodeDurableState s.durable) with
    | mk outcome store' =>
      cases outcome with
      | error status =>
        simp only [hstore, hw, exec_bind, exec_set, exec_lift] at h
        exact absurd h (by simp [Except.map, Except.isOk, Except.toBool])
      | ok u =>
        unfold writeSnapshot at hw
        split at hw
        · exact absurd (Prod.mk.inj hw).1 (by simp [fail])
        · rename_i hlen
          cases hsnapshot : env.snapshot with
          | published => exact ⟨rfl, not_lt.mp hlen⟩
          -- a snapshot that was published but not cleaned up after fails the call as well
          | unpublished | uncleaned =>
            simp only [hsnapshot] at hw
            exact absurd (Prod.mk.inj hw).1 (by simp [fail])

/-- A checkpoint is recoverable exactly when what it saves passes the checks of its reader. -/
theorem checkpointRecoverable_iff {env : Env} {s : RuntimeState} {call : Call}
    (hcanonical : s.Canonical) (hbounded : s.Bounded) :
    CheckpointRecoverable s env call ↔ SavesCheckpointable s env call := by
  cases call with
  | checkpoint =>
    constructor
    · intro h hdurable hpublished hlen hplans
      obtain ⟨store, hstore⟩ := Option.isSome_iff_exists.mp hdurable
      have hexec := exec_checkpoint_published hstore hpublished hlen
      have haccepted := h (by rw [hexec]; rfl) hplans _ (by rw [hexec]; rfl)
      exact checkpointable_of_accepted haccepted
    · intro h hok hplans store' hstore'
      obtain ⟨store, hstore, hpublished, hlen⟩ := published_of_isOk hok
      have hcheckpointable := h (by simp [hstore]) hpublished hlen hplans
      rw [exec_checkpoint_published hstore hpublished hlen] at hstore'
      obtain rfl := Option.some.inj hstore'
      exact hcheckpointable.accepted hcanonical hbounded hplans _
  | applyTopology _ | applyPolicy _ | recordDetection _ | authorize | plan _ | transition _
  | submitApply _ _ _ | acknowledge _ | verifyEffect _ => exact Iff.rfl

/-- The live runtime is canonical and bounded. -/
def StorableSystem (sys : System) : Prop := Live (fun s => s.Canonical ∧ s.Bounded) sys

/-- It is so in every state that a run reaches. -/
theorem StorableSystem.next {sys : System} (h : StorableSystem sys) (event : Event) :
    StorableSystem (sys.next event) := by
  refine Live.next h (fun config env boot s _ _ hok => ?_) fun env call s _ _ hs => ?_
  · obtain ⟨s₀, disk₀, hrecover, hstarted, -⟩ := openRuntime_ok (Prod.ext hok rfl)
    exact ⟨hstarted.canonical (recover_canonical hrecover), openRuntime_bounded (Prod.ext hok rfl)⟩
  · exact ⟨canonical_call hs.1, (perform_outcome env s call).bounded hs.2⟩

/-- In a run every successful checkpoint is recoverable if and only if every state that is saved
passes the checks of the reader. -/
theorem checkpoints_recoverable_iff (events : List Event) :
    Runs.Along System.next (OnCall CheckpointRecoverable) {} events ↔
      Runs.Along System.next (OnCall SavesCheckpointable) {} events := by
  have hstart : StorableSystem {} := fun s hs => absurd hs (by simp)
  have hiff : ∀ sys event, StorableSystem sys →
      (OnCall CheckpointRecoverable sys event ↔ OnCall SavesCheckpointable sys event) := by
    intro sys event h
    cases event with
    | call env call =>
      exact forall₂_congr fun s hs => checkpointRecoverable_iff (h s hs).1 (h s hs).2
    | open_ _ _ _ | crash _ => exact Iff.rfl
  exact ⟨Runs.Along.of_invariant (fun sys event h hp => ⟨h.next event, (hiff sys event h).mp hp⟩)
      hstart,
    Runs.Along.of_invariant (fun sys event h hp => ⟨h.next event, (hiff sys event h).mpr hp⟩)
      hstart⟩

/-! ## A resource id that is never read back -/

namespace Sample

/-- A detection whose resource id has a blank in it. -/
def misnamed : List Event :=
  [opens 1, does (.recordDetection ⟨bytesOf "a b", .present, 1, Digest.zero⟩)]

end Sample

/-- A report whose resource id is not canonical is taken, and the snapshot that has it is refused. -/
theorem checkpoint_unrecoverable_misnamed :
    ¬ ∀ events, Runs.Along System.next (OnCall CheckpointRecoverable) {} events := by
  intro h
  have hlast := Runs.Along.append_right (h (Sample.misnamed ++ [Sample.does .checkpoint]))
  obtain ⟨s, hrun, hs⟩ : ∃ s, (Runs.exec System.next {} Sample.misnamed).runtime = some s ∧
      (s.store.isSome ∧ (encodeDurableState s.durable).length ≤ kMaxSnapshotPayloadBytes ∧
        s.plans = [] ∧ s.detections.any fun record => !isValidResourceId record.resource) := by
    have hrefused : (Runs.exec System.next {} Sample.misnamed).runtime.any fun s => decide
        (s.store.isSome ∧ (encodeDurableState s.durable).length ≤ kMaxSnapshotPayloadBytes ∧
          s.plans = [] ∧ s.detections.any fun record => !isValidResourceId record.resource) := by
      decide +kernel
    obtain ⟨s, hrun, hs⟩ := Option.any_eq_true _ _ |>.mp hrefused
    exact ⟨s, hrun, of_decide_eq_true hs⟩
  obtain ⟨hdurable, hlen, hplans, hinvalid⟩ := hs
  obtain ⟨store, hstore⟩ := Option.isSome_iff_exists.mp hdurable
  have hexec := @exec_checkpoint_published Sample.env s store hstore rfl hlen
  have hdecode : s.PlansDecode := by simp [RuntimeState.PlansDecode, hplans]
  have haccepted := hlast.1 s hrun (by rw [hexec]; rfl) hdecode _ (by rw [hexec]; rfl)
  obtain ⟨record, hmem, hrecord⟩ := List.any_eq_true.mp hinvalid
  have hvalid := (checkpointable_of_accepted haccepted).resources record hmem
  simp [hvalid] at hrecord

end Fcfn
