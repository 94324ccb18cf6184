import Fcfn.Runtime.System

/-!
# What a call can do

`Outcome` lists, for each call, the states it can leave and what it returns, with the checks that
have passed. `perform_outcome` says that the list is complete; every invariant of the runtime is
proved from it, one case for each way a call can end. -/

namespace Fcfn

open Words Stateful RuntimeState DurableStore

namespace RuntimeState

/-- A store after a snapshot was tried: as it was, or with the state's snapshot and no log. -/
def Saved (s : RuntimeState) (store store' : DurableStore) : Prop :=
  store' = store ∨
    store' = { store with
      disk := ⟨some (store.last_sequence, encodeDurableState s.durable), [], 0⟩ } ∧
    (encodeDurableState s.durable).length ≤ kMaxSnapshotPayloadBytes

end RuntimeState

/-- What a call can do to the state, and what it returns. -/
inductive Outcome (env : Env) (s : RuntimeState) : Call → Result Reply → RuntimeState → Prop
  /-- A check failed, or a commit before anything was changed. -/
  | refused (call : Call) (status : Status) : Outcome env s call (.error status) s
  /-- The authorization no longer holds. -/
  | fenced (call : Call) (status : Status) (id : AuthorizationId) :
    Outcome env s call (.error status) (s.fenceAuthorization id)
  | topology {spec : TopologySpec} {t : Topology} (build : Topology.build spec = .ok t)
      (newer : ∀ current, s.topology = some current → current.generation < t.generation)
      (committable : s.Committable env t.encode) :
    Outcome env s (.applyTopology spec) (.ok (.topology t.generation))
      { s.committed .topologyDefinition t.encode with topology := some t }
  | policy {policy : ContainmentPolicy} (valid : validatePolicy policy = .ok ())
      (newer : s.policy.generation < policy.generation)
      (committable : s.Committable env policy.encode) :
    Outcome env s (.applyPolicy policy) (.ok (.policy policy.generation))
      { s.committed .policyDefinition policy.encode with policy := policy }
  /-- The observation contradicts the evidence. -/
  | conflicting {observation : FailureObservation} {status : Status}
      (contradicts : s.evidence.merged observation = .error status) :
    Outcome env s (.recordDetection observation) (.error status)
      { s with evidence_conflict := true }
  /-- The observation was recorded under another sequence than its record names. -/
  | diverged {observation : FailureObservation} {merged : EvidenceVector} (status : Status)
      (merges : s.evidence.merged observation = .ok merged)
      (changed : merged.digest ≠ s.evidence.digest)
      (committable : s.Committable env (encodeDetection (s.detectionRecord observation)))
      (diverges : (s.committed .detectionRecord
        (encodeDetection (s.detectionRecord observation))).sequence ≠ s.sequence + 1) :
    Outcome env s (.recordDetection observation) (.error status)
      (s.committed .detectionRecord (encodeDetection (s.detectionRecord observation)))
  /-- The observation confirms the evidence. -/
  | confirmed {observation : FailureObservation} {merged : EvidenceVector}
      (merges : s.evidence.merged observation = .ok merged)
      (unchanged : merged.digest = s.evidence.digest) :
    Outcome env s (.recordDetection observation)
      (.ok (.detection (s.detectionRecord observation))) (s.confirm observation.resource)
  | detected {observation : FailureObservation} {merged : EvidenceVector}
      (merges : s.evidence.merged observation = .ok merged)
      (changed : merged.digest ≠ s.evidence.digest)
      (committable : s.Committable env (encodeDetection (s.detectionRecord observation))) :
    Outcome env s (.recordDetection observation)
      (.ok (.detection (s.detectionRecord observation)))
      (((s.committed .detectionRecord
        (encodeDetection (s.detectionRecord observation))).publishEvidence merged
          (s.detectionRecord observation)).confirm observation.resource)
  /-- The table of authorizations is full. -/
  | full (status : Status) :
    Outcome env s .authorize (.error status) (s.dropExpired env.now_millis)
  | authorization :
    Outcome env s .authorize
      (.ok (.authorization ((s.dropExpired env.now_millis).authorizationRecord env.now_millis)))
      ((s.dropExpired env.now_millis).publishAuthorization
        ((s.dropExpired env.now_millis).authorizationRecord env.now_millis))
  | planned {id : AuthorizationId} {record : AuthorizationRecord} {t : Topology}
      {plan : ContainmentPlan}
      (authorized : (s.validateAuthorization env.now_millis id false).1 = .ok record)
      (loaded : s.topology = some t) (computed : s.nextPlan t = .ok plan)
      (committable : s.Committable env plan.encode) :
    Outcome env s (.plan id) (.ok (.plan plan))
      ((s.committed .planDecision plan.encode).publishPlan plan)
  /-- The decision could not be recorded. -/
  | transitionFailed {request : TransitionRequest} (status : Status) (s₁ : RuntimeState)
      (counted : s₁ = s.countTransition ∨
        s₁ = s.countTransition.fenceAuthorization request.authorization) :
    Outcome env s (.transition request) (.error status) s₁
  | transitionRefused {request : TransitionRequest} (s₁ : RuntimeState)
      (recorded decision : TransitionDecision)
      (counted : s₁ = s.countTransition ∨
        s₁ = s.countTransition.fenceAuthorization request.authorization)
      (denied : decision.status ≠ .accepted ∧ recorded.status = decision.status)
      (committable : s₁.Committable env (encodeTransition recorded)) :
    Outcome env s (.transition request) (.ok (.transition decision))
      ((s₁.committed .transitionDecision (encodeTransition recorded)).publishRefusal decision)
  /-- The decision was recorded but its boundary was not. -/
  | transitionHalved {request : TransitionRequest} {record : AuthorizationRecord}
      {plan : ContainmentPlan} {decision : TransitionDecision} (status : Status)
      (authorized : (s.countTransition.validateAuthorization env.now_millis
        request.authorization false).1 = .ok record)
      (checked : s.countTransition.checkTransition request
        (s.countTransition.startDecision request) = .ok (plan, decision))
      (committable : s.countTransition.Committable env (encodeTransition decision)) :
    Outcome env s (.transition request) (.error status)
      (s.countTransition.committed .transitionDecision (encodeTransition decision))
  | transitionAccepted {request : TransitionRequest} {record : AuthorizationRecord}
      {plan : ContainmentPlan} {decision : TransitionDecision} (published : TransitionDecision)
      (authorized : (s.countTransition.validateAuthorization env.now_millis
        request.authorization false).1 = .ok record)
      (checked : s.countTransition.checkTransition request
        (s.countTransition.startDecision request) = .ok (plan, decision))
      (decided : published = { decision with sequence := published.sequence })
      (committable : s.countTransition.Committable env (encodeTransition decision) ∧
        (s.countTransition.committed .transitionDecision (encodeTransition decision)).Committable env
          (encodeBoundaryDecision (boundaryRecord plan published))) :
    Outcome env s (.transition request) (.ok (.transition published))
      (((s.countTransition.committed .transitionDecision (encodeTransition decision)).committed
        .boundaryDecision (encodeBoundaryDecision (boundaryRecord plan published))).publishBoundary
          plan published)
  /-- The attempt could not be recorded. -/
  | submitFailed (id : AuthorizationId) (generation : PlanGeneration) (plan_digest : Digest)
      (status : Status) :
    Outcome env s (.submitApply id generation plan_digest) (.error status) s.countAttempt
  | submitted {id : AuthorizationId} {record : AuthorizationRecord} {generation : PlanGeneration}
      {plan_digest : Digest} {plan : ContainmentPlan}
      (authorized : (s.validateAuthorization env.now_millis id true).1 = .ok record)
      (checked : s.checkSubmit generation plan_digest = .ok plan)
      (committable : s.countAttempt.Committable env
        (encodeAttempt (s.countAttempt.newAttempt plan env.later_millis))) :
    Outcome env s (.submitApply id generation plan_digest)
      (.ok (.submitted (s.countAttempt.newAttempt plan env.later_millis)))
      ((s.countAttempt.committed .applyAttempt
        (encodeAttempt (s.countAttempt.newAttempt plan env.later_millis))).publishAttempt
          (s.countAttempt.newAttempt plan env.later_millis))
  /-- The acknowledgement observed another boundary. -/
  | ackMismatched {ack : ApplyAcknowledgement} {attempt : ApplyAttempt} (status : Status)
      (s' : RuntimeState) (checked : s.checkAcknowledgement ack = .ok attempt)
      (taken : s' = s.setAttempt ack.id attempt.mismatched ∨
        (s.setAttempt ack.id attempt.mismatched).Committable env (encodeAttempt attempt.mismatched) ∧
        s' = (s.setAttempt ack.id attempt.mismatched).committed .applyAcknowledgement
          (encodeAttempt attempt.mismatched)) :
    Outcome env s (.acknowledge ack) (.error status) s'
  /-- The acknowledgement could not be recorded. -/
  | ackFailed {ack : ApplyAcknowledgement} {attempt : ApplyAttempt} (status : Status)
      (checked : s.checkAcknowledgement ack = .ok attempt) :
    Outcome env s (.acknowledge ack) (.error status)
      (s.setAttempt ack.id (attempt.acknowledged ack env.now_millis))
  | acknowledged {ack : ApplyAcknowledgement} {attempt : ApplyAttempt}
      (checked : s.checkAcknowledgement ack = .ok attempt)
      (matches_ : ack.observed_boundary_digest = attempt.boundary_digest)
      (committable : (s.setAttempt ack.id (attempt.acknowledged ack env.now_millis)).Committable env
        (encodeAttempt (attempt.acknowledged ack env.now_millis))) :
    Outcome env s (.acknowledge ack)
      (.ok (.acknowledged (attempt.acknowledged ack env.now_millis)))
      (((s.setAttempt ack.id (attempt.acknowledged ack env.now_millis)).committed
        .applyAcknowledgement (encodeAttempt
          (attempt.acknowledged ack env.now_millis))).recomputeEffectState)
  /-- The effect report could not be recorded. -/
  | verifyFailed {report : EffectVerification} {attempt : ApplyAttempt} (status : Status)
      (checked : s.checkVerification report = .ok attempt) :
    Outcome env s (.verifyEffect report) (.error status)
      (s.setAttempt report.id (attempt.observed report env.now_millis))
  /-- The effect report observed another boundary. -/
  | verifyMismatched {report : EffectVerification} {attempt : ApplyAttempt} (status : Status)
      (checked : s.checkVerification report = .ok attempt)
      (mismatch : (mismatchText report.observation
        (report.observed_boundary_digest = attempt.boundary_digest)).isSome)
      (committable : (s.setAttempt report.id (attempt.observed report env.now_millis)).Committable env
        (encodeAttempt (attempt.observed report env.now_millis))) :
    Outcome env s (.verifyEffect report) (.error status)
      (((s.setAttempt report.id (attempt.observed report env.now_millis)).committed
        .effectVerification (encodeAttempt
          (attempt.observed report env.now_millis))).recomputeEffectState)
  | verified {report : EffectVerification} {attempt : ApplyAttempt}
      (checked : s.checkVerification report = .ok attempt)
      (matches_ : mismatchText report.observation
        (report.observed_boundary_digest = attempt.boundary_digest) = none)
      (committable : (s.setAttempt report.id (attempt.observed report env.now_millis)).Committable env
        (encodeAttempt (attempt.observed report env.now_millis))) :
    Outcome env s (.verifyEffect report)
      (.ok (.verified (attempt.observed report env.now_millis)))
      ((((s.setAttempt report.id (attempt.observed report env.now_millis)).committed
        .effectVerification (encodeAttempt
          (attempt.observed report env.now_millis))).adoptVerified
            (attempt.observed report env.now_millis)).recomputeEffectState)
  /-- The snapshot was refused, or failed before or after it was published. -/
  | saveFailed {store store' : DurableStore} (status : Status) (durable : s.store = some store)
      (saved : s.Saved store store') :
    Outcome env s .checkpoint (.error status) { s with store := some store' }
  | saved {store store' : DurableStore} (durable : s.store = some store)
      (saved : s.Saved store store') :
    Outcome env s .checkpoint (.ok .checkpointed)
      { s with store := some store', sequence := store'.last_sequence }

/-! ## The list is complete -/

section Complete

variable (env : Env) (s : RuntimeState)

/-- An authorization that holds leaves the state alone; another may be fenced. -/
theorem validateAuthorization_spec (now : UInt64) (id : AuthorizationId) (require_apply : Bool) :
    (∃ record, s.validateAuthorization now id require_apply = (.ok record, s)) ∨
      ∃ status, s.validateAuthorization now id require_apply = (.error status, s) ∨
        s.validateAuthorization now id require_apply = (.error status, s.fenceAuthorization id) := by
  unfold validateAuthorization
  split
  · exact Or.inr ⟨_, Or.inl rfl⟩
  split
  · exact Or.inr ⟨_, Or.inl rfl⟩
  split
  · exact Or.inr ⟨_, Or.inl rfl⟩
  simp only
  split
  · exact Or.inr ⟨_, Or.inr rfl⟩
  split
  · exact Or.inr ⟨_, Or.inr rfl⟩
  split
  · exact Or.inr ⟨_, Or.inl rfl⟩
  · exact Or.inl ⟨_, rfl⟩

/-- Validating as an operation. -/
theorem exec_authorized (id : AuthorizationId) (require_apply : Bool) :
    exec (authorized env id require_apply) s =
      s.validateAuthorization env.now_millis id require_apply := by
  simp only [authorized, exec_bind, exec_get, exec_set, exec_lift]

/-- The outcome of an operation that fails does not depend on what its reply is wrapped in. -/
theorem Outcome.map {call : Call} {α : Type} {f : α → Reply} {m : Op α}
    (h : ∀ r s', exec m s = (r, s') → Outcome env s call (r.map f) s') :
    Outcome env s call (exec (f <$> m) s).1 (exec (f <$> m) s).2 := by
  rw [exec_map]
  exact h _ _ rfl

theorem applyTopology_outcome (spec : TopologySpec) :
    Outcome env s (.applyTopology spec) (exec (perform env (.applyTopology spec)) s).1
      (exec (perform env (.applyTopology spec)) s).2 := by
  refine Outcome.map env s fun r s' h => ?_
  simp only [applyTopology, exec_bind, exec_lift, exec_get] at h
  cases hbuild : Topology.build spec with
  | error status =>
    simp only [hbuild] at h
    obtain ⟨rfl, rfl⟩ := Prod.mk.inj h
    exact .refused _ _
  | ok t =>
    simp only [hbuild] at h
    cases hnewer : s.topology.all fun current => decide (current.generation < t.generation) with
    | false =>
      simp only [hnewer, require, fail, Bool.false_eq_true, if_false] at h
      obtain ⟨rfl, rfl⟩ := Prod.mk.inj h
      exact .refused _ _
    | true =>
      simp only [hnewer, require, if_true] at h
      -- nothing is published unless its record was committed
      rcases exec_commit env .topologyDefinition t.encode s with ⟨hc, hcommittable⟩ | ⟨⟨status, hc⟩, -⟩
      · simp only [hc, exec_modify, exec_pure] at h
        obtain ⟨rfl, rfl⟩ := Prod.mk.inj h
        refine .topology hbuild (fun current hcur => ?_) hcommittable
        simpa [hcur] using hnewer
      · simp only [hc] at h
        obtain ⟨rfl, rfl⟩ := Prod.mk.inj h
        exact .refused _ _

theorem applyPolicy_outcome (policy : ContainmentPolicy) :
    Outcome env s (.applyPolicy policy) (exec (perform env (.applyPolicy policy)) s).1
      (exec (perform env (.applyPolicy policy)) s).2 := by
  refine Outcome.map env s fun r s' h => ?_
  simp only [applyPolicy, exec_bind, exec_lift, exec_get] at h
  cases hvalid : validatePolicy policy with
  | error status =>
    simp only [hvalid] at h
    obtain ⟨rfl, rfl⟩ := Prod.mk.inj h
    exact .refused _ _
  | ok u =>
    simp only [hvalid] at h
    by_cases hnewer : s.policy.generation < policy.generation
    · simp only [hnewer, require, decide_true, if_true] at h
      rcases exec_commit env .policyDefinition policy.encode s with
        ⟨hc, hcommittable⟩ | ⟨⟨status, hc⟩, -⟩
      · simp only [hc, exec_modify, exec_pure] at h
        obtain ⟨rfl, rfl⟩ := Prod.mk.inj h
        exact .policy hvalid hnewer hcommittable
      · simp only [hc] at h
        obtain ⟨rfl, rfl⟩ := Prod.mk.inj h
        exact .refused _ _
    · simp only [hnewer, require, fail, decide_false, Bool.false_eq_true, if_false] at h
      obtain ⟨rfl, rfl⟩ := Prod.mk.inj h
      exact .refused _ _

theorem recordDetection_outcome (observation : FailureObservation) :
    Outcome env s (.recordDetection observation) (exec (perform env (.recordDetection observation)) s).1
      (exec (perform env (.recordDetection observation)) s).2 := by
  refine Outcome.map env s fun r s' h => ?_
  simp only [recordDetection, exec_bind, exec_lift, exec_get] at h
  cases hgen : observation.generation != 0 with
  | false =>
    simp only [hgen, require, fail, Bool.false_eq_true, if_false] at h
    obtain ⟨rfl, rfl⟩ := Prod.mk.inj h
    exact .refused _ _
  | true =>
    simp only [hgen, require, if_true] at h
    cases hmerge : s.evidence.merged observation with
    | error status =>
      simp only [hmerge] at h
      -- only a contradiction is remembered, other refusals leave no trace
      by_cases hconflict : status.code = .conflict
      · simp only [hconflict, if_true] at h
        obtain ⟨rfl, rfl⟩ := Prod.mk.inj h
        exact .conflicting hmerge
      · simp only [hconflict, if_false] at h
        obtain ⟨rfl, rfl⟩ := Prod.mk.inj h
        exact .refused _ _
    | ok merged =>
      simp only [hmerge] at h
      by_cases hchanged : merged.digest ≠ s.evidence.digest
      · simp only [hchanged, ne_eq, not_false_eq_true, if_true, exec_bind] at h
        rcases exec_commit env .detectionRecord (encodeDetection (s.detectionRecord observation)) s
          with ⟨hc, hcommittable⟩ | ⟨⟨status, hc⟩, -⟩
        · simp only [hc, exec_get, exec_lift] at h
          -- the record names the sequence that it expects, and the commit may give it another
          cases hseq : (s.committed .detectionRecord
              (encodeDetection (s.detectionRecord observation))).sequence ==
                (s.detectionRecord observation).sequence with
          | false =>
            simp only [hseq, Bool.false_eq_true, if_false] at h
            obtain ⟨rfl, rfl⟩ := Prod.mk.inj h
            exact .diverged _ hmerge hchanged hcommittable (by simpa [detectionRecord] using hseq)
          | true =>
            simp only [hseq, if_true, exec_modify, exec_pure] at h
            obtain ⟨rfl, rfl⟩ := Prod.mk.inj h
            exact .detected hmerge hchanged hcommittable
        · simp only [hc] at h
          obtain ⟨rfl, rfl⟩ := Prod.mk.inj h
          exact .refused _ _
      · simp only [hchanged, if_false] at h
        obtain ⟨rfl, rfl⟩ := Prod.mk.inj h
        exact .confirmed hmerge (not_not.mp hchanged)

theorem authorize_outcome :
    Outcome env s .authorize (exec (perform env .authorize) s).1
      (exec (perform env .authorize) s).2 := by
  refine Outcome.map env s fun r s' h => ?_
  simp only [authorize, exec_bind, exec_modify, exec_get, exec_lift] at h
  cases hroom : decide ((s.dropExpired env.now_millis).authorizations.length <
      (s.dropExpired env.now_millis).config.max_active_authorizations) with
  | false =>
    simp only [hroom, require, fail, Bool.false_eq_true, if_false] at h
    obtain ⟨rfl, rfl⟩ := Prod.mk.inj h
    exact .full _
  | true =>
    simp only [hroom, require, if_true] at h
    obtain ⟨rfl, rfl⟩ := Prod.mk.inj h
    exact .authorization

theorem plan_outcome (id : AuthorizationId) :
    Outcome env s (.plan id) (exec (perform env (.plan id)) s).1
      (exec (perform env (.plan id)) s).2 := by
  refine Outcome.map env s fun r s' h => ?_
  simp only [plan, exec_bind, exec_authorized] at h
  rcases validateAuthorization_spec s env.now_millis id false with
    ⟨record, hv⟩ | ⟨status, hv | hv⟩
  · simp only [hv, exec_get] at h
    cases htop : s.topology with
    | none =>
      simp only [htop, exec_throw] at h
      obtain ⟨rfl, rfl⟩ := Prod.mk.inj h
      exact .refused _ _
    | some t =>
      simp only [htop, exec_bind, exec_lift] at h
      cases hplan : s.nextPlan t with
      | error status =>
        simp only [hplan] at h
        obtain ⟨rfl, rfl⟩ := Prod.mk.inj h
        exact .refused _ _
      | ok p =>
        simp only [hplan] at h
        rcases exec_commit env .planDecision p.encode s with ⟨hc, hcommittable⟩ | ⟨⟨status, hc⟩, -⟩
        · simp only [hc, exec_modify, exec_pure] at h
          obtain ⟨rfl, rfl⟩ := Prod.mk.inj h
          exact .planned (by rw [hv]) htop hplan hcommittable
        · simp only [hc] at h
          obtain ⟨rfl, rfl⟩ := Prod.mk.inj h
          exact .refused _ _
  · simp only [hv] at h
    obtain ⟨rfl, rfl⟩ := Prod.mk.inj h
    exact .refused _ _
  · simp only [hv] at h
    obtain ⟨rfl, rfl⟩ := Prod.mk.inj h
    exact .fenced _ _ id

/-- Recording a refusal leaves a state that no decision accepted. -/
theorem refuseTransition_outcome {request : TransitionRequest} {refusal : Refusal}
    {s₁ : RuntimeState} {r : Result TransitionDecision} {s' : RuntimeState}
    (counted : s₁ = s.countTransition ∨
      s₁ = s.countTransition.fenceAuthorization request.authorization)
    (hstatus : refusal.status ≠ .accepted)
    (h : exec (refuseTransition env refusal) s₁ = (r, s')) :
    Outcome env s (.transition request) (r.map Reply.transition) s' := by
  simp only [refuseTransition, exec_bind, exec_get] at h
  generalize hrec : ({ refusal.decision with
    status := refusal.status
    code := refusal.code
    explanation := refusal.decision.explanation.add refusal.reason refusal.text
    sequence := s₁.sequence } : TransitionDecision) = recorded at h
  have hrecorded : recorded.status = refusal.status := by rw [← hrec]
  rcases exec_commit env .transitionDecision (encodeTransition recorded) s₁ with
    ⟨hc, hcommittable⟩ | ⟨⟨status, hc⟩, -⟩
  · simp only [hc, exec_modify, exec_pure] at h
    obtain ⟨rfl, rfl⟩ := Prod.mk.inj h
    exact .transitionRefused s₁ recorded _ counted ⟨hstatus, hrecorded⟩
      hcommittable
  · simp only [hc] at h
    obtain ⟨rfl, rfl⟩ := Prod.mk.inj h
    exact .transitionFailed _ s₁ counted

/-- The checks of the kind refuse with a status of their own. -/
theorem checkKind_refusal {kind : TransitionKind} {plan : ContainmentPlan}
    {decision : TransitionDecision} {refusal : Refusal}
    (h : s.checkKind kind plan decision = .error refusal) : refusal.status ≠ .accepted := by
  unfold checkKind at h
  cases kind <;> simp only at h <;> split at h
  all_goals first
    | (obtain rfl := Except.error.inj h; simp)
    | exact absurd h (by simp)

/-- A refused transition is never recorded as accepted. -/
theorem checkTransition_refusal {request : TransitionRequest} {decision : TransitionDecision}
    {refusal : Refusal} (h : s.checkTransition request decision = .error refusal) :
    refusal.status ≠ .accepted := by
  -- every check but that of the kind refuses with a status of its own
  unfold checkTransition at h
  split at h
  · obtain rfl := Except.error.inj h
    simp
  · simp only at h
    split at h
    · obtain rfl := Except.error.inj h
      simp
    split at h
    · obtain rfl := Except.error.inj h
      simp
    split at h
    · obtain rfl := Except.error.inj h
      simp
    split at h
    · obtain rfl := Except.error.inj h
      simp
    split at h
    · rename_i refusal' hkind
      obtain rfl := Except.error.inj h
      exact checkKind_refusal s hkind
    split at h
    · obtain rfl := Except.error.inj h
      simp
    · exact absurd h (by simp)

/-- What has passed when a transition is accepted. -/
structure PassedTransition (s : RuntimeState) (request : TransitionRequest)
    (plan : ContainmentPlan) (decision : TransitionDecision) : Prop where
  found : s.findPlan request.plan = some plan
  digest : plan.digest = request.plan_digest
  verified : s.boundary.isSome → isVerifiedEffect s.effect_state = true
  kind : ∃ d, s.checkKind request.kind plan d = .ok ()
  newer : s.boundary_plan < plan.generation ∨ s.boundary_plan = 0
  accepted : decision.status = .accepted
  to_released : decision.to_released = decide (request.kind = .release)
  to_generation : decision.to_generation =
    if decision.to_released then 0 else plan.boundary.generation
  to_digest : decision.to_digest = plan.boundary.digest

theorem checkTransition_passed {request : TransitionRequest} {decision decision' : TransitionDecision}
    {plan : ContainmentPlan}
    (h : s.checkTransition request decision = .ok (plan, decision')) :
    PassedTransition s request plan decision' := by
  unfold checkTransition at h
  split at h
  · exact absurd h (by simp)
  · rename_i plan' hfound
    simp only at h
    split at h
    · exact absurd h (by simp)
    rename_i hdigest
    split at h
    · exact absurd h (by simp)
    split at h
    · exact absurd h (by simp)
    split at h
    · exact absurd h (by simp)
    rename_i hverified
    split at h
    · exact absurd h (by simp)
    rename_i u hkind
    split at h
    · exact absurd h (by simp)
    rename_i hnewer
    obtain ⟨rfl, rfl⟩ := Prod.mk.inj (Except.ok.inj h)
    refine ⟨hfound, not_not.mp hdigest, fun hb => ?_, ⟨_, hkind⟩, ?_, rfl, rfl, ?_, rfl⟩
    · simpa [hb] using hverified
    · by_cases h0 : s.boundary_plan = 0
      · exact Or.inr h0
      · exact Or.inl (by simpa [h0] using hnewer)
    · simp [acceptedDecision]

theorem transition_outcome (request : TransitionRequest) :
    Outcome env s (.transition request) (exec (perform env (.transition request)) s).1
      (exec (perform env (.transition request)) s).2 := by
  refine Outcome.map env s fun r s' h => ?_
  simp only [transition, exec_bind, exec_modify, exec_get, exec_set] at h
  rcases validateAuthorization_spec s.countTransition env.now_millis request.authorization false with
    ⟨record, hv⟩ | ⟨status, hv | hv⟩
  · simp only [hv] at h
    cases hcheck : s.countTransition.checkTransition request
        (s.countTransition.startDecision request) with
    | error refusal =>
      simp only [hcheck] at h
      exact refuseTransition_outcome env s (Or.inl rfl) (checkTransition_refusal _ hcheck) h
    | ok checked =>
      obtain ⟨plan, decision⟩ := checked
      simp only [hcheck, acceptTransition, exec_bind] at h
      rcases exec_commit env .transitionDecision (encodeTransition decision) s.countTransition with
        ⟨hc, hcommittable⟩ | ⟨⟨status, hc⟩, -⟩
      · simp only [hc, exec_get] at h
        -- the boundary is recorded with the sequence that the decision was given
        generalize hpub : ({ decision with
          sequence := (s.countTransition.committed .transitionDecision
            (encodeTransition decision)).sequence } : TransitionDecision) = published at h
        rcases exec_commit env .boundaryDecision
          (encodeBoundaryDecision (boundaryRecord plan published))
            (s.countTransition.committed .transitionDecision (encodeTransition decision)) with
          ⟨hc', hcommittable'⟩ | ⟨⟨status, hc'⟩, -⟩
        · simp only [hc', exec_modify, exec_pure] at h
          obtain ⟨rfl, rfl⟩ := Prod.mk.inj h
          exact .transitionAccepted published (by rw [hv]) hcheck (by rw [← hpub])
            ⟨hcommittable, hcommittable'⟩
        · simp only [hc'] at h
          obtain ⟨rfl, rfl⟩ := Prod.mk.inj h
          exact .transitionHalved _ (by rw [hv]) hcheck hcommittable
      · simp only [hc] at h
        obtain ⟨rfl, rfl⟩ := Prod.mk.inj h
        exact .transitionFailed _ _ (Or.inl rfl)
  · simp only [hv] at h
    exact refuseTransition_outcome env s (Or.inl rfl) (by simp [authorizationRefusal]) h
  · simp only [hv] at h
    exact refuseTransition_outcome env s (Or.inr rfl) (by simp [authorizationRefusal]) h

theorem submitApply_outcome (id : AuthorizationId) (generation : PlanGeneration)
    (plan_digest : Digest) :
    Outcome env s (.submitApply id generation plan_digest)
      (exec (perform env (.submitApply id generation plan_digest)) s).1
      (exec (perform env (.submitApply id generation plan_digest)) s).2 := by
  refine Outcome.map env s fun r s' h => ?_
  simp only [submitApply, exec_bind, exec_authorized] at h
  rcases validateAuthorization_spec s env.now_millis id true with ⟨record, hv⟩ | ⟨status, hv | hv⟩
  · simp only [hv, exec_get, exec_lift] at h
    cases hcheck : s.checkSubmit generation plan_digest with
    | error status =>
      simp only [hcheck] at h
      obtain ⟨rfl, rfl⟩ := Prod.mk.inj h
      exact .refused _ _
    | ok plan =>
      simp only [hcheck, exec_modify] at h
      -- the attempt is counted whether or not it can be recorded
      rcases exec_commit env .applyAttempt
        (encodeAttempt (s.countAttempt.newAttempt plan env.later_millis)) s.countAttempt with
        ⟨hc, hcommittable⟩ | ⟨⟨status, hc⟩, -⟩
      · simp only [hc, exec_pure] at h
        obtain ⟨rfl, rfl⟩ := Prod.mk.inj h
        exact .submitted (by rw [hv]) hcheck hcommittable
      · simp only [hc] at h
        obtain ⟨rfl, rfl⟩ := Prod.mk.inj h
        exact .submitFailed _ _ _ _
  · simp only [hv] at h
    obtain ⟨rfl, rfl⟩ := Prod.mk.inj h
    exact .refused _ _
  · simp only [hv] at h
    obtain ⟨rfl, rfl⟩ := Prod.mk.inj h
    exact .fenced _ _ id

theorem acknowledge_outcome (ack : ApplyAcknowledgement) :
    Outcome env s (.acknowledge ack) (exec (perform env (.acknowledge ack)) s).1
      (exec (perform env (.acknowledge ack)) s).2 := by
  refine Outcome.map env s fun r s' h => ?_
  simp only [acknowledge, exec_bind, exec_get, exec_lift] at h
  cases hcheck : s.checkAcknowledgement ack with
  | error status =>
    simp only [hcheck] at h
    obtain ⟨rfl, rfl⟩ := Prod.mk.inj h
    exact .refused _ _
  | ok attempt =>
    simp only [hcheck] at h
    -- a digest of another boundary makes the attempt ambiguous, and the call fails either way
    split at h
    · simp only [exec_bind, exec_modify] at h
      rcases exec_commit env .applyAcknowledgement (encodeAttempt attempt.mismatched)
        (s.setAttempt ack.id attempt.mismatched) with ⟨hc, hcommittable⟩ | ⟨⟨status, hc⟩, -⟩
      · simp only [hc, exec_throw] at h
        obtain ⟨rfl, rfl⟩ := Prod.mk.inj h
        exact .ackMismatched _ _ hcheck (Or.inr ⟨hcommittable, rfl⟩)
      · simp only [hc] at h
        obtain ⟨rfl, rfl⟩ := Prod.mk.inj h
        exact .ackMismatched _ _ hcheck (Or.inl rfl)
    · rename_i hmatches
      simp only [exec_bind, exec_modify] at h
      rcases exec_commit env .applyAcknowledgement
        (encodeAttempt (attempt.acknowledged ack env.now_millis))
          (s.setAttempt ack.id (attempt.acknowledged ack env.now_millis)) with
        ⟨hc, hcommittable⟩ | ⟨⟨status, hc⟩, -⟩
      · simp only [hc, exec_pure] at h
        obtain ⟨rfl, rfl⟩ := Prod.mk.inj h
        exact .acknowledged hcheck (not_not.mp hmatches) hcommittable
      · simp only [hc] at h
        obtain ⟨rfl, rfl⟩ := Prod.mk.inj h
        exact .ackFailed _ hcheck

theorem verifyEffect_outcome (report : EffectVerification) :
    Outcome env s (.verifyEffect report) (exec (perform env (.verifyEffect report)) s).1
      (exec (perform env (.verifyEffect report)) s).2 := by
  refine Outcome.map env s fun r s' h => ?_
  simp only [verifyEffect, exec_bind, exec_get, exec_lift] at h
  cases hcheck : s.checkVerification report with
  | error status =>
    simp only [hcheck] at h
    obtain ⟨rfl, rfl⟩ := Prod.mk.inj h
    exact .refused _ _
  | ok attempt =>
    simp only [hcheck, exec_modify] at h
    rcases exec_commit env .effectVerification
      (encodeAttempt (attempt.observed report env.now_millis))
        (s.setAttempt report.id (attempt.observed report env.now_millis)) with
      ⟨hc, hcommittable⟩ | ⟨⟨status, hc⟩, -⟩
    · simp only [hc] at h
      -- a report of another boundary is recorded before it is refused
      cases htext : mismatchText report.observation
          (report.observed_boundary_digest = attempt.boundary_digest) with
      | some text =>
        simp only [htext, exec_bind, exec_modify, exec_throw] at h
        obtain ⟨rfl, rfl⟩ := Prod.mk.inj h
        exact .verifyMismatched _ hcheck (by rw [htext]; rfl) hcommittable
      | none =>
        simp only [htext, exec_bind, exec_modify, exec_pure] at h
        obtain ⟨rfl, rfl⟩ := Prod.mk.inj h
        exact .verified hcheck htext hcommittable
    · simp only [hc] at h
      obtain ⟨rfl, rfl⟩ := Prod.mk.inj h
      exact .verifyFailed _ hcheck

/-- A snapshot is published or leaves the store alone. -/
theorem writeSnapshot_saved (store : DurableStore) :
    s.Saved store (store.writeSnapshot env.snapshot (encodeDurableState s.durable)).2 := by
  unfold DurableStore.writeSnapshot
  split
  · exact Or.inl rfl
  · rename_i hlen
    cases env.snapshot with
    | published => exact Or.inr ⟨rfl, not_lt.mp hlen⟩
    | unpublished => exact Or.inl rfl
    | uncleaned => exact Or.inr ⟨rfl, not_lt.mp hlen⟩

theorem checkpoint_outcome :
    Outcome env s .checkpoint (exec (perform env .checkpoint) s).1
      (exec (perform env .checkpoint) s).2 := by
  refine Outcome.map env s fun r s' h => ?_
  simp only [checkpoint, exec_bind, exec_get] at h
  cases hstore : s.store with
  | none =>
    simp only [hstore, exec_throw] at h
    obtain ⟨rfl, rfl⟩ := Prod.mk.inj h
    exact .refused _ _
  | some store =>
    simp only [hstore, exec_bind, exec_set, exec_lift] at h
    have hsaved := writeSnapshot_saved env s store
    cases hw : store.writeSnapshot env.snapshot (encodeDurableState s.durable) with
    | mk outcome store' =>
      rw [hw] at hsaved
      cases outcome with
      | error status =>
        simp only [hw] at h
        obtain ⟨rfl, rfl⟩ := Prod.mk.inj h
        exact .saveFailed _ hstore hsaved
      | ok u =>
        simp only [hw, exec_modify] at h
        obtain ⟨rfl, rfl⟩ := Prod.mk.inj h
        exact .saved hstore hsaved

/-- Every call ends in one of the listed ways. -/
theorem perform_outcome (call : Call) :
    Outcome env s call (exec (perform env call) s).1 (exec (perform env call) s).2 := by
  cases call with
  | applyTopology spec => exact applyTopology_outcome env s spec
  | applyPolicy policy => exact applyPolicy_outcome env s policy
  | recordDetection observation => exact recordDetection_outcome env s observation
  | authorize => exact authorize_outcome env s
  | plan id => exact plan_outcome env s id
  | transition request => exact transition_outcome env s request
  | submitApply id generation plan_digest =>
    exact submitApply_outcome env s id generation plan_digest
  | acknowledge ack => exact acknowledge_outcome env s ack
  | verifyEffect report => exact verifyEffect_outcome env s report
  | checkpoint => exact checkpoint_outcome env s

end Complete

end Fcfn
