import Fcfn.Runtime.Attempts

/-!
# Failed commits

An operation publishes what it changes after its record is committed, so that a commit that fails
leaves the governed state as it was. The two operations that take in a report from the enforcement
plane do it the other way round: the attempt is changed in the table first. `commit_failures_iff`
says that these are the only ones. -/

namespace Fcfn

open Words Stateful RuntimeState DurableStore Tables

/-- The state that is governed. -/
structure Governed where
  topology : Option Topology
  policy : ContainmentPolicy
  evidence : EvidenceVector
  plans : List ContainmentPlan
  boundary : Option ContainmentBoundary
  boundary_plan : PlanGeneration
  boundary_plan_digest : Digest
  transitions : List TransitionDecision
  attempts : List ApplyAttempt
  effect_state : EffectState
  deriving DecidableEq

/-- The governed part of a state. -/
def RuntimeState.governed (s : RuntimeState) : Governed where
  topology := s.topology
  policy := s.policy
  evidence := s.evidence
  plans := s.plans
  boundary := s.boundary
  boundary_plan := s.boundary_plan
  boundary_plan_digest := s.boundary_plan_digest
  transitions := s.transitions
  attempts := s.attempts
  effect_state := s.effect_state

/-- The errors of a commit. No other error of the runtime has one of these texts. -/
def commitErrors : List Status :=
  [⟨.limitExceeded, "record payload exceeds the bound"⟩, ⟨.exhausted, "record sequence exhausted"⟩,
    ⟨.ioError, "cannot open file for append"⟩]

/-- A call returns the error of a commit. -/
def FailsToCommit (s : RuntimeState) (env : Env) (call : Call) : Prop :=
  ∃ status ∈ commitErrors, (exec (perform env call) s).1 = .error status

/-- What the store returns when it does not commit. -/
theorem mem_commitErrors {store store' : DurableStore} {append_fails : Sequence → Bool}
    {type : RecordType} {payload : Bytes} {status : Status}
    (h : store.commit append_fails type payload = (.error status, store')) :
    status ∈ commitErrors := by
  unfold DurableStore.commit at h
  split at h
  · simp only [fail, Prod.mk.injEq, Except.error.injEq] at h
    simp [commitErrors, ← h.1]
  simp only at h
  split at h
  · simp only [fail, Prod.mk.injEq, Except.error.injEq] at h
    simp [commitErrors, ← h.1]
  split at h
  · simp only [fail, Prod.mk.injEq, Except.error.injEq] at h
    simp [commitErrors, ← h.1]
  · simp at h

/-- A commit that fails returns one of its errors and changes nothing. -/
theorem exec_commit_fails {env : Env} {payload : Bytes} {s : RuntimeState}
    (h : ¬ s.Committable env payload) (type : RecordType) :
    ∃ status ∈ commitErrors, exec (commit env type payload) s = (.error status, s) := by
  rcases exec_commit env type payload s with ⟨-, hcommittable⟩ | ⟨⟨status, hc⟩, -⟩
  · exact absurd hcommittable h
  refine ⟨status, ?_, hc⟩
  cases hstore : s.store with
  | none => exact absurd (fun store hsome => absurd (hstore.symm.trans hsome) (by simp)) h
  | some store =>
    simp only [commit, exec_bind, exec_get, hstore, exec_set, exec_lift] at hc
    cases hcommit : store.commit env.append_fails type payload with
    | mk outcome store' =>
      cases outcome with
      | error status' =>
        simp only [hcommit, Prod.mk.injEq, Except.error.injEq] at hc
        exact hc.1 ▸ mem_commitErrors hcommit
      | ok _ => simp [hcommit, exec_modify] at hc

/-- A commit that succeeds. -/
theorem exec_commit_succeeds {env : Env} {payload : Bytes} {s : RuntimeState}
    (h : s.Committable env payload) (type : RecordType) :
    exec (commit env type payload) s = (.ok (), s.committed type payload) := by
  rcases exec_commit env type payload s with ⟨hc, -⟩ | ⟨-, hnot⟩
  · exact hc
  · exact absurd h hnot

/-- A call that returns the error of a commit leaves the governed state as it was. -/
def FailureChangesNothing (s : RuntimeState) (env : Env) (call : Call) : Prop :=
  FailsToCommit s env call → (exec (perform env call) s).2.governed = s.governed

/-- The record of a report that passes its checks is committed. -/
def RecordsReports (s : RuntimeState) (env : Env) : Call → Prop
  | .acknowledge ack => ∀ attempt ∈ (s.checkAcknowledgement ack).toOption,
    s.Committable env (encodeAttempt
      (if ack.observed_boundary_digest ≠ attempt.boundary_digest then attempt.mismatched
        else attempt.acknowledged ack env.now_millis))
  | .verifyEffect report => ∀ attempt ∈ (s.checkVerification report).toOption,
    s.Committable env (encodeAttempt (attempt.observed report env.now_millis))
  | _ => True

/-! ## Where nothing is changed -/

/-- An error of a call that takes in no report leaves the governed state as it was. -/
theorem Outcome.governed_of_error {env : Env} {s s' : RuntimeState} {call : Call} {status : Status}
    (h : Outcome env s call (.error status) s') (hack : ∀ ack, call ≠ .acknowledge ack)
    (hverify : ∀ report, call ≠ .verifyEffect report) : s'.governed = s.governed := by
  generalize hreply : (.error status : Result Reply) = reply at h
  cases h with
  | transitionFailed _ _ counted => rcases counted with rfl | rfl <;> rfl
  | ackMismatched => exact absurd rfl (hack _)
  | ackFailed => exact absurd rfl (hack _)
  | verifyFailed => exact absurd rfl (hverify _)
  | verifyMismatched => exact absurd rfl (hverify _)
  | topology | policy | confirmed | detected | authorization | planned | transitionRefused
  | transitionAccepted | submitted | acknowledged | verified | saved => exact absurd hreply (by simp)
  | refused | fenced | conflicting | diverged | full | transitionHalved | submitFailed
  | saveFailed => rfl

/-! ## Where the attempt is changed first -/

/-- The refusal of another boundary is no error of a commit. -/
theorem conflict_not_commitError (text : String) : ⟨.conflict, text⟩ ∉ commitErrors := by
  simp [commitErrors]

/-- A retained attempt that is changed is found as it was changed. -/
theorem findAttempt_setAttempt {s : RuntimeState} {id : ApplyAttemptId}
    {attempt attempt' : ApplyAttempt} (hfind : s.findAttempt id = some attempt)
    (hid : attempt'.id = id) : (s.setAttempt id attempt').findAttempt id = some attempt' := by
  rw [findAttempt, setAttempt, find?_updateFirst_self]
  · rw [findAttempt] at hfind
    rw [hfind]
    rfl
  · intro a _
    rw [hid]
    exact beq_self_eq_true _

/-- Changing a retained attempt changes the table of attempts. -/
theorem setAttempt_ne {s : RuntimeState} {id : ApplyAttemptId} {attempt attempt' : ApplyAttempt}
    (hfind : s.findAttempt id = some attempt) (hne : attempt' ≠ attempt)
    (hid : attempt'.id = attempt.id) : (s.setAttempt id attempt').governed ≠ s.governed := by
  intro heq
  have hattempts : (s.setAttempt id attempt').attempts = s.attempts :=
    congrArg Governed.attempts heq
  have hretained : attempt.id = id := by simpa using List.find?_some hfind
  have hfind' := findAttempt_setAttempt hfind (hid.trans hretained)
  rw [findAttempt, hattempts] at hfind'
  rw [findAttempt, hfind'] at hfind
  exact hne (Option.some.inj hfind)

/-- The attempt that an acknowledgement leads to is not the one that was retained. -/
theorem acknowledgement_ne {s : RuntimeState} {ack : ApplyAcknowledgement} {attempt : ApplyAttempt}
    (h : s.checkAcknowledgement ack = .ok attempt) (now : UInt64) :
    attempt.mismatched ≠ attempt ∧ attempt.acknowledged ack now ≠ attempt := by
  obtain ⟨-, -, -, hterminal, hsequence⟩ := checkAcknowledgement_ok_iff.mp h
  constructor
  · -- a mismatch makes the attempt ambiguous, which is terminal
    intro heq
    rw [← heq] at hterminal
    exact absurd hterminal (by simp [ApplyAttempt.mismatched, ApplyAttempt.terminal])
  · intro heq
    have hsame : ack.applier_sequence = attempt.applier_sequence :=
      congrArg ApplyAttempt.applier_sequence heq
    rw [hsame] at hsequence
    exact UInt64.lt_irrefl _ hsequence

/-- The attempt that an effect report leads to is not the one that was retained. -/
theorem observed_ne {s : RuntimeState} {report : EffectVerification} {attempt : ApplyAttempt}
    (h : s.checkVerification report = .ok attempt) (now : UInt64) :
    attempt.observed report now ≠ attempt := by
  obtain ⟨-, -, -, -, hsequence⟩ := checkVerification_ok_iff.mp h
  intro heq
  have hsame : report.applier_sequence = attempt.applier_sequence :=
    congrArg ApplyAttempt.applier_sequence heq
  rw [hsame] at hsequence
  exact UInt64.lt_irrefl _ hsequence

/-- An acknowledgement that fails to be recorded changes an attempt, and one that is recorded does
not return the error of a commit. -/
theorem failureChangesNothing_acknowledge (s : RuntimeState) (env : Env)
    (ack : ApplyAcknowledgement) :
    FailureChangesNothing s env (.acknowledge ack) ↔ RecordsReports s env (.acknowledge ack) := by
  unfold FailureChangesNothing FailsToCommit RecordsReports
  simp only [perform, exec_map, acknowledge, exec_bind, exec_get, exec_lift]
  cases hcheck : s.checkAcknowledgement ack with
  | error status => simp [Except.toOption]
  | ok attempt =>
    obtain ⟨hfind, -⟩ := checkAcknowledgement_ok hcheck
    obtain ⟨hmismatched, hacknowledged⟩ := acknowledgement_ne hcheck env.now_millis
    simp only [Except.toOption, Option.mem_def, Option.some.injEq, forall_eq']
    split
    · -- the digest of another boundary
      by_cases hc : s.Committable env (encodeAttempt attempt.mismatched)
      · have hexec := exec_commit_succeeds
          (show (s.setAttempt ack.id attempt.mismatched).Committable env _ from hc)
          .applyAcknowledgement
        refine iff_of_true ?_ hc
        rintro ⟨status, hstatus, hreply⟩
        simp only [exec_bind, exec_modify, hexec, exec_throw] at hreply
        exact absurd hstatus (Except.error.inj hreply ▸ conflict_not_commitError _)
      · obtain ⟨status, hstatus, hexec⟩ := exec_commit_fails
          (show ¬ (s.setAttempt ack.id attempt.mismatched).Committable env _ from hc)
          .applyAcknowledgement
        refine iff_of_false (fun h => ?_) hc
        simp only [exec_bind, exec_modify, hexec] at h
        exact setAttempt_ne hfind hmismatched rfl (h ⟨status, hstatus, rfl⟩)
    · by_cases hc : s.Committable env (encodeAttempt (attempt.acknowledged ack env.now_millis))
      · have hexec := exec_commit_succeeds
          (show (s.setAttempt ack.id (attempt.acknowledged ack env.now_millis)).Committable env _
            from hc) .applyAcknowledgement
        refine iff_of_true ?_ hc
        rintro ⟨status, -, hreply⟩
        simp [exec_bind, exec_modify, hexec, Except.map] at hreply
      · obtain ⟨status, hstatus, hexec⟩ := exec_commit_fails
          (show ¬ (s.setAttempt ack.id (attempt.acknowledged ack env.now_millis)).Committable env _
            from hc) .applyAcknowledgement
        refine iff_of_false (fun h => ?_) hc
        simp only [exec_bind, exec_modify, hexec] at h
        exact setAttempt_ne hfind hacknowledged rfl (h ⟨status, hstatus, rfl⟩)

/-- An effect report that fails to be recorded changes an attempt, and one that is recorded does not
return the error of a commit. -/
theorem failureChangesNothing_verifyEffect (s : RuntimeState) (env : Env)
    (report : EffectVerification) :
    FailureChangesNothing s env (.verifyEffect report) ↔
      RecordsReports s env (.verifyEffect report) := by
  unfold FailureChangesNothing FailsToCommit RecordsReports
  simp only [perform, exec_map, verifyEffect, exec_bind, exec_get, exec_lift]
  cases hcheck : s.checkVerification report with
  | error status => simp [Except.toOption]
  | ok attempt =>
    obtain ⟨hfind, -⟩ := checkVerification_ok_iff.mp hcheck
    simp only [Except.toOption, Option.mem_def, Option.some.injEq, forall_eq', exec_modify]
    by_cases hc : s.Committable env (encodeAttempt (attempt.observed report env.now_millis))
    · have hexec := exec_commit_succeeds
        (show (s.setAttempt report.id (attempt.observed report env.now_millis)).Committable env _
          from hc) .effectVerification
      refine iff_of_true ?_ hc
      rintro ⟨status, hstatus, hreply⟩
      simp only [hexec] at hreply
      split at hreply
      · simp only [exec_bind, exec_modify, exec_throw] at hreply
        exact absurd hstatus (Except.error.inj hreply ▸ conflict_not_commitError _)
      · simp [exec_modify, Except.map] at hreply
    · obtain ⟨status, hstatus, hexec⟩ := exec_commit_fails
        (show ¬ (s.setAttempt report.id (attempt.observed report env.now_millis)).Committable env _
          from hc) .effectVerification
      refine iff_of_false (fun h => ?_) hc
      simp only [hexec] at h
      exact setAttempt_ne hfind (observed_ne hcheck _) rfl (h ⟨status, hstatus, rfl⟩)

/-- A call that returns the error of a commit leaves the governed state as it was, exactly when it is
no report that passes its checks and cannot be recorded. -/
theorem failureChangesNothing_iff (s : RuntimeState) (env : Env) (call : Call) :
    FailureChangesNothing s env call ↔ RecordsReports s env call := by
  by_cases hack : ∃ ack, call = .acknowledge ack
  · obtain ⟨ack, rfl⟩ := hack
    exact failureChangesNothing_acknowledge s env ack
  by_cases hverify : ∃ report, call = .verifyEffect report
  · obtain ⟨report, rfl⟩ := hverify
    exact failureChangesNothing_verifyEffect s env report
  · have hrecords : RecordsReports s env call := by
      cases call with
      | acknowledge ack => exact absurd ⟨ack, rfl⟩ hack
      | verifyEffect report => exact absurd ⟨report, rfl⟩ hverify
      | _ => trivial
    refine iff_of_true ?_ hrecords
    rintro ⟨status, -, hreply⟩
    have ho := perform_outcome env s call
    rw [hreply] at ho
    exact ho.governed_of_error (fun ack h => hack ⟨ack, h⟩) fun report h => hverify ⟨report, h⟩

/-- So it is with every step of a run. -/
theorem onCall_failureChangesNothing_iff (sys : System) (event : Event) :
    OnCall FailureChangesNothing sys event ↔ OnCall RecordsReports sys event := by
  cases event with
  | call env call => exact forall₂_congr fun s _ => failureChangesNothing_iff s env call
  | _ => exact Iff.rfl

/-- In a run every failed commit leaves the governed state as it was if and only if every report
that passes its checks is recorded. -/
theorem commit_failures_iff (events : List Event) :
    Runs.Along System.next (OnCall FailureChangesNothing) {} events ↔
      Runs.Along System.next (OnCall RecordsReports) {} events :=
  Runs.Along.congr onCall_failureChangesNothing_iff

instance RecordsReports.instDecidable (s : RuntimeState) (env : Env) :
    (call : Call) → Decidable (RecordsReports s env call)
  | .acknowledge ack =>
    have h : Decidable (∀ attempt ∈ (s.checkAcknowledgement ack).toOption,
      s.Committable env (encodeAttempt
        (if ack.observed_boundary_digest ≠ attempt.boundary_digest then attempt.mismatched
          else attempt.acknowledged ack env.now_millis))) := Option.decidableForallMem _
    h
  | .verifyEffect report =>
    have h : Decidable (∀ attempt ∈ (s.checkVerification report).toOption,
      s.Committable env (encodeAttempt (attempt.observed report env.now_millis))) :=
      Option.decidableForallMem _
    h
  | .applyTopology _ | .applyPolicy _ | .recordDetection _ | .authorize | .plan _ | .transition _
  | .submitApply _ _ _ | .checkpoint => inferInstanceAs (Decidable True)

/-- An acknowledgement that cannot be recorded is taken in all the same. -/
theorem failed_acknowledgement_taken_in :
    ¬ ∀ events, Runs.Along System.next (OnCall FailureChangesNothing) {} events := by
  intro h
  have hnothing := h (Sample.submitted ++ [.call { Sample.env with append_fails := fun _ => true }
    (.acknowledge ⟨⟨1, 1⟩, 1, Sample.boot 1, 1, Sample.boot 9, 1,
      Sample.boundaryDigest Sample.submitted 1, true⟩)])
  rw [Runs.Along.congr onCall_failureChangesNothing_iff] at hnothing
  revert hnothing
  decide +kernel

end Fcfn
