import Fcfn.Runtime.Applied
import Fcfn.Runtime.Failures
import Fcfn.Runtime.Snapshots

/-!
# The lineage of attempts

Every change of an attempt is recorded as the attempt it leads to, and replay lets a record replace
the attempt it finds unless the record ranks below it. The handlers do not follow that order in one
place: a failed attempt can still become ambiguous. `attempts_replayed` says that the records give
back every attempt as it last stood in the runs where no report goes against the order, every report
is recorded and no identity is given out again. -/

namespace Fcfn

open Words Codec Stateful RuntimeState DurableStore Tables

/-! ## One record -/

/-- The table of attempts with one more version of an attempt. -/
def upsert (attempts : List ApplyAttempt) (attempt : ApplyAttempt) : List ApplyAttempt :=
  if attempts.any fun a => a.id == attempt.id then
    updateFirst (fun a => a.id == attempt.id) (fun _ => attempt) attempts
  else attempts ++ [attempt]

/-- A version does not rank below the one that it follows. -/
def Ascends (attempts : List ApplyAttempt) (attempt : ApplyAttempt) : Prop :=
  ∀ old ∈ attempts, old.id = attempt.id → effectRank old.state ≤ effectRank attempt.state

instance Ascends.instDecidable (attempts : List ApplyAttempt) (attempt : ApplyAttempt) :
    Decidable (Ascends attempts attempt) :=
  inferInstanceAs (Decidable (∀ old ∈ attempts, _))

/-- Replaying a version that does not rank below the one before puts it in the table. -/
theorem replayAttempt_ascends {s : RuntimeState} {attempt : ApplyAttempt}
    (h : Ascends s.attempts attempt) : (s.replayAttempt attempt).attempts =
      upsert s.attempts attempt := by
  unfold replayAttempt upsert findAttempt
  cases hfind : s.attempts.find? fun a => a.id == attempt.id with
  | none =>
    have hnone : ¬ s.attempts.any fun a => a.id == attempt.id := by
      simpa using hfind
    rw [if_neg hnone]
  | some old =>
    have hmem : old ∈ s.attempts := List.mem_of_find?_eq_some hfind
    have hid : old.id = attempt.id := by simpa using List.find?_some hfind
    have hany : s.attempts.any fun a => a.id == attempt.id :=
      List.any_eq_true.mpr ⟨old, hmem, by simp [hid]⟩
    rw [if_pos hany]
    simp only
    rw [if_pos (h old hmem hid)]
    rfl

/-- Replaying the record of an attempt. -/
theorem replay_attemptRecord {s : RuntimeState} {type : RecordType} {sequence : Sequence}
    {attempt : ApplyAttempt} (htype : type.OfAttempt) (h : attempt.explanation.Canonical) :
    applyReplayedFrame s ⟨type, sequence, encodeAttempt attempt⟩ = .ok (s.replayAttempt attempt) := by
  unfold applyReplayedFrame
  rcases htype with rfl | rfl | rfl <;>
    rw [show decodeAttempt (encodeAttempt attempt) = .ok attempt from decodeAttempt_encode h] <;> rfl

/-! ## The versions of an attempt -/

/-- The version of an attempt that a call leads to, when its checks pass. -/
def RuntimeState.versionOf (s : RuntimeState) (env : Env) : Call → Option ApplyAttempt
  | .submitApply authorization plan plan_digest =>
    if (s.validateAuthorization env.now_millis authorization true).1.isOk then
      (s.checkSubmit plan plan_digest).toOption.map fun plan =>
        s.countAttempt.newAttempt plan env.later_millis
    else none
  | .acknowledge ack => (s.checkAcknowledgement ack).toOption.map fun attempt =>
    if ack.observed_boundary_digest ≠ attempt.boundary_digest then attempt.mismatched
    else attempt.acknowledged ack env.now_millis
  | .verifyEffect report => (s.checkVerification report).toOption.map fun attempt =>
    attempt.observed report env.now_millis
  | _ => none

/-- The attempt that a call submitted, or that it changed in the table. -/
def changedAttempt (s s' : RuntimeState) (call : Call) (reply : Result Reply) :
    Option ApplyAttempt :=
  match reply with
  | .ok (.submitted attempt) => some attempt
  | _ => (call.reportsOn.bind s'.findAttempt).filter fun attempt =>
    s.findAttempt attempt.id ≠ some attempt

/-- A call wrote no version of an attempt: none to the table, and none to the log. -/
def WritesNoVersion (s s' : RuntimeState) (call : Call) (reply : Result Reply) : Prop :=
  changedAttempt s s' call reply = none ∧ Grown (fun type _ => ¬ type.OfAttempt) s.store s'.store

/-- A call wrote a version of an attempt to the table and to the log. -/
structure WritesVersion (env : Env) (s s' : RuntimeState) (call : Call) (reply : Result Reply)
    (attempt : ApplyAttempt) (type : RecordType) : Prop where
  version : attempt ∈ s.versionOf env call
  committable : s.Committable env (encodeAttempt attempt)
  changed : changedAttempt s s' call reply = some attempt
  ofAttempt : type.OfAttempt
  store : s'.store = s.store.map fun store => store.appended type (encodeAttempt attempt)

/-- A retained attempt that a report changes is noted in its new version. -/
theorem changedAttempt_report {s s' : RuntimeState} {call : Call} {reply : Result Reply}
    {id : ApplyAttemptId} {attempt attempt' : ApplyAttempt} (hreports : call.reportsOn = some id)
    (hreply : ∀ submitted, reply ≠ .ok (.submitted submitted))
    (hfind : s.findAttempt id = some attempt) (hid : attempt'.id = attempt.id)
    (hne : attempt' ≠ attempt)
    (hattempts : s'.attempts = (s.setAttempt id attempt').attempts) :
    changedAttempt s s' call reply = some attempt' := by
  have hretained : attempt.id = id := by simpa using List.find?_some hfind
  have hfind' : s'.findAttempt id = some attempt' := by
    rw [findAttempt, hattempts]
    exact findAttempt_setAttempt hfind (hid.trans hretained)
  have hother : s.findAttempt attempt'.id ≠ some attempt' := by
    rw [hid, hretained, hfind]
    exact fun h => hne (Option.some.inj h).symm
  unfold changedAttempt
  split
  · exact absurd rfl (hreply _)
  · rw [hreports, Option.bind_some, hfind', Option.filter_some, if_pos (by simpa using hother)]

/-- An acknowledgement that passes its checks writes a version. -/
theorem writesVersion_acknowledge {env : Env} {s : RuntimeState} {ack : ApplyAcknowledgement}
    {attempt : ApplyAttempt} (hcheck : s.checkAcknowledgement ack = .ok attempt)
    (hrecords : RecordsReports s env (.acknowledge ack)) :
    ∃ attempt', WritesVersion env s (exec (perform env (.acknowledge ack)) s).2 (.acknowledge ack)
      (exec (perform env (.acknowledge ack)) s).1 attempt' .applyAcknowledgement := by
  obtain ⟨hfind, -⟩ := checkAcknowledgement_ok hcheck
  obtain ⟨hmismatched, hacknowledged⟩ := acknowledgement_ne hcheck env.now_millis
  have hcommittable := hrecords attempt (mem_toOption.mpr hcheck)
  -- the digest decides between the two versions that an acknowledgement can write
  by_cases hdigest : ack.observed_boundary_digest ≠ attempt.boundary_digest
  · rw [if_pos hdigest] at hcommittable
    have hexec : exec (perform env (.acknowledge ack)) s =
        (.error ⟨.conflict, "acknowledgement boundary digest does not match the intent"⟩,
          (s.setAttempt ack.id attempt.mismatched).committed .applyAcknowledgement
            (encodeAttempt attempt.mismatched)) := by
      have hcommit := exec_commit_succeeds
        (show (s.setAttempt ack.id attempt.mismatched).Committable env _ from hcommittable)
        .applyAcknowledgement
      simp only [perform, exec_map, acknowledge, exec_bind, exec_get, exec_lift, hcheck]
      rw [if_pos hdigest]
      simp only [exec_bind, exec_modify, hcommit, exec_throw, Except.map]
    rw [hexec]
    refine ⟨attempt.mismatched, ?_, hcommittable, ?_, Or.inr (Or.inl rfl), rfl⟩
    · simp [versionOf, hcheck, hdigest, Except.toOption]
    · exact changedAttempt_report rfl (by simp) hfind rfl hmismatched rfl
  · rw [if_neg hdigest] at hcommittable
    have hexec : exec (perform env (.acknowledge ack)) s =
        (.ok (.acknowledged (attempt.acknowledged ack env.now_millis)),
          ((s.setAttempt ack.id (attempt.acknowledged ack env.now_millis)).committed
            .applyAcknowledgement (encodeAttempt
              (attempt.acknowledged ack env.now_millis))).recomputeEffectState) := by
      have hcommit := exec_commit_succeeds
        (show (s.setAttempt ack.id (attempt.acknowledged ack env.now_millis)).Committable env _
          from hcommittable) .applyAcknowledgement
      simp only [perform, exec_map, acknowledge, exec_bind, exec_get, exec_lift, hcheck]
      rw [if_neg hdigest]
      simp only [exec_bind, exec_modify, hcommit, exec_pure, Except.map]
    rw [hexec]
    refine ⟨attempt.acknowledged ack env.now_millis, ?_, hcommittable, ?_, Or.inr (Or.inl rfl),
      rfl⟩
    · simp [versionOf, hcheck, hdigest, Except.toOption]
    · exact changedAttempt_report rfl (by simp) hfind rfl hacknowledged rfl

/-- An effect report that passes its checks writes a version. -/
theorem writesVersion_verifyEffect {env : Env} {s : RuntimeState} {report : EffectVerification}
    {attempt : ApplyAttempt} (hcheck : s.checkVerification report = .ok attempt)
    (hrecords : RecordsReports s env (.verifyEffect report)) :
    WritesVersion env s (exec (perform env (.verifyEffect report)) s).2 (.verifyEffect report)
      (exec (perform env (.verifyEffect report)) s).1 (attempt.observed report env.now_millis)
      .effectVerification := by
  obtain ⟨hfind, -⟩ := checkVerification_ok_iff.mp hcheck
  have hcommittable := hrecords attempt (mem_toOption.mpr hcheck)
  have hcommit := exec_commit_succeeds
    (show (s.setAttempt report.id (attempt.observed report env.now_millis)).Committable env _
      from hcommittable) .effectVerification
  have hreply : ∀ submitted, (exec (perform env (.verifyEffect report)) s).1 ≠
      .ok (.submitted submitted) := by
    intro submitted
    simp only [perform, exec_map]
    cases (exec (verifyEffect env report) s).1 <;> simp [Except.map]
  refine ⟨?_, hcommittable, ?_, Or.inr (Or.inr rfl), ?_⟩
  · simp [versionOf, hcheck, Except.toOption]
  · exact changedAttempt_report rfl hreply hfind rfl (observed_ne hcheck _)
      (verifyEffect_attempts hcheck)
  · simp only [perform, exec_map, verifyEffect, exec_bind, exec_get, exec_lift, hcheck,
      exec_modify, hcommit]
    split
    · rfl
    · exact adoptVerified_store _ _

/-- A call that does not change the state writes no version. -/
theorem writesNoVersion_refused (s : RuntimeState) (call : Call) (status : Status) :
    WritesNoVersion s s call (.error status) := by
  refine ⟨?_, .refl _⟩
  show Option.filter _ (call.reportsOn.bind s.findAttempt) = none
  rw [Option.filter_eq_none_iff]
  intro attempt hmem
  obtain ⟨id, -, hfind⟩ := Option.bind_eq_some_iff.mp hmem
  have hid : attempt.id = id := by simpa using List.find?_some hfind
  simp [hid, hfind]

/-- A submission writes the version it leads to, or none. -/
theorem Outcome.writes_submitted {env : Env} {s s' : RuntimeState} {id : AuthorizationId}
    {generation : PlanGeneration} {plan_digest : Digest} {reply : Result Reply}
    (h : Outcome env s (.submitApply id generation plan_digest) reply s') :
    WritesNoVersion s s' (.submitApply id generation plan_digest) reply ∨
      ∃ attempt, WritesVersion env s s' (.submitApply id generation plan_digest) reply attempt
        .applyAttempt := by
  cases h with
  | submitted authorized checked committable =>
    refine Or.inr ⟨_, ?_, committable, rfl, Or.inl rfl, rfl⟩
    simp [versionOf, authorized, checked, Except.isOk, Except.toBool, Except.toOption]
  | refused => exact Or.inl (writesNoVersion_refused s _ _)
  | fenced => exact Or.inl ⟨rfl, .refl _⟩
  | submitFailed => exact Or.inl ⟨rfl, .refl _⟩

/-- The other calls write no version of an attempt. -/
theorem Outcome.writes_none {env : Env} {s s' : RuntimeState} {call : Call} {reply : Result Reply}
    (h : Outcome env s call reply s') (hreports : call.reportsOn = none)
    (hsubmits : ∀ id generation plan_digest, call ≠ .submitApply id generation plan_digest)
    (hcheckpoint : call ≠ .checkpoint) : WritesNoVersion s s' call reply := by
  refine ⟨?_, ?_⟩
  · unfold changedAttempt
    split
    · cases h with
      | submitted => exact absurd rfl (hsubmits _ _ _)
    · rw [hreports]
      rfl
  · rcases h.grown with hgrown | ⟨rfl, -⟩
    · refine hgrown.mono fun type payload hrecord _ => ?_
      cases hrecord with
      | submitted => exact absurd rfl (hsubmits _ _ _)
      | acknowledged => exact absurd hreports (by simp [Call.reportsOn])
      | verified => exact absurd hreports (by simp [Call.reportsOn])
      | _ => simp [RecordType.OfAttempt]
    · exact absurd rfl hcheckpoint

/-- A checkpoint writes no version of an attempt and appends nothing. -/
theorem Outcome.checkpoint_quiet {env : Env} {s s' : RuntimeState} {reply : Result Reply}
    {store : DurableStore} (h : Outcome env s .checkpoint reply s') (hstore : s.store = some store) :
    changedAttempt s s' .checkpoint reply = none ∧ ∃ store', s'.store = some store' ∧
      store'.disk.log.drop store.disk.log.length = [] := by
  have hsaved : ∀ {before after : DurableStore}, s.store = some before → s.Saved before after →
      after.disk.log.drop store.disk.log.length = [] := by
    intro before after hbefore hsaved
    obtain rfl : before = store := Option.some.inj (hbefore.symm.trans hstore)
    rcases hsaved with rfl | ⟨rfl, -⟩
    · exact List.drop_length
    · exact List.drop_nil
  cases h with
  | refused => exact ⟨rfl, store, hstore, List.drop_length⟩
  | fenced => exact ⟨rfl, store, hstore, List.drop_length⟩
  | saveFailed _ durable saved => exact ⟨rfl, _, rfl, hsaved durable saved⟩
  | saved durable saved => exact ⟨rfl, _, rfl, hsaved durable saved⟩

/-- A call whose reports are recorded writes no version of an attempt, or the one it leads to. -/
theorem writes_version {env : Env} {s : RuntimeState} {call : Call}
    (hrecords : RecordsReports s env call) (hcheckpoint : call ≠ .checkpoint) :
    WritesNoVersion s (exec (perform env call) s).2 call (exec (perform env call) s).1 ∨
      ∃ attempt type, WritesVersion env s (exec (perform env call) s).2 call
        (exec (perform env call) s).1 attempt type := by
  have ho := perform_outcome env s call
  cases call with
  | acknowledge ack =>
    cases hcheck : s.checkAcknowledgement ack with
    | ok attempt =>
      obtain ⟨attempt', h⟩ := writesVersion_acknowledge hcheck hrecords
      exact Or.inr ⟨_, _, h⟩
    | error status =>
      left
      simp only [perform, exec_map, acknowledge, exec_bind, exec_get, exec_lift, hcheck]
      exact writesNoVersion_refused s _ status
  | verifyEffect report =>
    cases hcheck : s.checkVerification report with
    | ok attempt => exact Or.inr ⟨_, _, writesVersion_verifyEffect hcheck hrecords⟩
    | error status =>
      left
      simp only [perform, exec_map, verifyEffect, exec_bind, exec_get, exec_lift, hcheck]
      exact writesNoVersion_refused s _ status
  | submitApply id generation plan_digest =>
    -- a submission commits its record before it is counted
    rcases ho.writes_submitted with hnone | ⟨attempt, h⟩
    · exact Or.inl hnone
    · exact Or.inr ⟨attempt, _, h⟩
  | checkpoint => exact absurd rfl hcheckpoint
  | applyTopology _ | applyPolicy _ | recordDetection _ | authorize | plan _ | transition _ =>
    exact Or.inl (ho.writes_none rfl (by simp) hcheckpoint)

/-! ## Runs -/

/-- The records of attempts that were committed, and every attempt as it last stood live. -/
structure Lineage where
  records : List Frame := []
  live : List ApplyAttempt := []

/-- What a step adds to the lineage: the records of attempts that it appended to the log, and the
attempt that it changed. A runtime without a store commits nothing, and its attempts are not noted. -/
def noteLineage (sys : System) (event : Event) (lineage : Lineage) : Lineage where
  records := lineage.records ++
    ((sys.next event).disk.log.drop sys.disk.log.length).filter fun frame => frame.type.OfAttempt
  live :=
    match event, sys.runtime with
    | .call env call, some s =>
      if s.store.isSome then
        let (reply, s') := exec (perform env call) s
        (changedAttempt s s' call reply).elim lineage.live (upsert lineage.live)
      else lineage.live
    | _, _ => lineage.live

/-- Replaying the records, in order, rebuilds every attempt as it last stood live. -/
def Rebuilt (lineage : Lineage) : Prop :=
  ∀ s : RuntimeState, s.attempts = [] →
    ∃ s', lineage.records.foldlM applyReplayedFrame s = .ok s' ∧ s'.attempts = lineage.live

/-- A call of a durable runtime keeps the order: its report is recorded when it passes the checks,
and the version that it records does not rank below the one before. -/
def KeepsOrder (p : System × Lineage) : Event → Prop
  | .call env call => ∀ s ∈ p.1.runtime, s.store.isSome → RecordsReports s env call ∧
    ∀ attempt ∈ s.versionOf env call, s.Committable env (encodeAttempt attempt) →
      Ascends p.2.live attempt
  | .open_ _ _ _ | .crash _ => True

/-- One more version. -/
theorem Rebuilt.record {lineage : Lineage} (h : Rebuilt lineage) {attempt : ApplyAttempt}
    (hascends : Ascends lineage.live attempt) (hcanonical : attempt.explanation.Canonical)
    {type : RecordType} (htype : type.OfAttempt) (sequence : Sequence) :
    Rebuilt ⟨lineage.records ++ [⟨type, sequence, encodeAttempt attempt⟩],
      upsert lineage.live attempt⟩ := by
  intro s hs
  obtain ⟨s', hreplay, hattempts⟩ := h s hs
  refine ⟨s'.replayAttempt attempt, ?_, ?_⟩
  · rw [List.foldlM_append]
    refine bind_eq_ok.mpr ⟨s', hreplay, ?_⟩
    rw [List.foldlM_cons]
    exact bind_eq_ok.mpr ⟨_, replay_attemptRecord htype hcanonical, rfl⟩
  · rw [← hattempts]
    exact replayAttempt_ascends (hattempts ▸ hascends)

/-- The records that are appended are those with which the log grows. -/
theorem filter_appended {store store' : DurableStore}
    (h : Grown (fun type _ => ¬ type.OfAttempt) (some store) (some store')) :
    (store'.disk.log.drop store.disk.log.length).filter (fun frame => frame.type.OfAttempt) =
      [] := by
  obtain ⟨-, -, added, hlog, hadded⟩ := h.disk
  rw [hlog, List.drop_left, List.filter_eq_nil_iff]
  intro frame hf
  simpa using hadded frame hf

/-- What a call writes has a canonical explanation when the attempts have. -/
theorem Writes.canonical {env : Env} {s : RuntimeState} {call : Call} {attempt : ApplyAttempt}
    (hwrites : Writes env s call attempt) (h : ∀ a ∈ s.attempts, a.explanation.Canonical) :
    attempt.explanation.Canonical := by
  cases hwrites with
  | submitted => exact (Explanation.canonical_add _ _ _).mpr Explanation.canonical_empty
  | acknowledged attempt' checked taken =>
    have hbefore := h _ (List.mem_of_find?_eq_some (checkAcknowledgement_ok checked).1)
    rcases taken with rfl | rfl
    · exact (Explanation.canonical_add _ _ _).mpr hbefore
    · simp only [ApplyAttempt.acknowledged]
      split <;> exact (Explanation.canonical_add _ _ _).mpr hbefore
  | verified checked =>
    have hbefore := h _ (List.mem_of_find?_eq_some (checkVerification_ok_iff.mp checked).1)
    exact (Explanation.canonical_add _ _ _).mpr hbefore

/-- The attempts of the runtime and of its store have canonical explanations. -/
theorem canonicalAttempts_kept :
    (attemptsWith fun attempt => attempt.explanation.Canonical).Kept fun _ _ _ => True := by
  refine attemptsWith_kept (fun attempt h => ?_) fun env s call attempt h _ hwrites =>
    hwrites.canonical h
  unfold fenceAttempt
  split
  · exact h
  · exact (Explanation.canonical_add _ _ _).mpr Explanation.canonical_empty

/-- The version that a call leads to is one that it may write. -/
theorem writes_versionOf {s : RuntimeState} {env : Env} {call : Call} {attempt : ApplyAttempt}
    (h : attempt ∈ s.versionOf env call) : Writes env s call attempt := by
  cases call with
  | submitApply id generation plan_digest =>
    simp only [versionOf, Option.mem_def] at h
    split at h
    · obtain ⟨plan, hplan, rfl⟩ := Option.map_eq_some_iff.mp h
      exact .submitted (mem_toOption.mp hplan)
    · exact absurd h (by simp)
  | acknowledge ack =>
    obtain ⟨before, hbefore, rfl⟩ := Option.map_eq_some_iff.mp h
    refine .acknowledged _ (mem_toOption.mp hbefore) ?_
    split
    · exact Or.inl rfl
    · exact Or.inr rfl
  | verifyEffect report =>
    obtain ⟨before, hbefore, rfl⟩ := Option.map_eq_some_iff.mp h
    exact .verified (mem_toOption.mp hbefore)
  | applyTopology _ | applyPolicy _ | recordDetection _ | authorize | plan _ | transition _
  | checkpoint => exact absurd h (by simp [versionOf])

/-- What is known after a run: the explanations of attempts are canonical, and the records rebuild
the attempts. -/
structure LineageKept (p : System × Lineage) : Prop where
  canonical : (attemptsWith fun attempt => attempt.explanation.Canonical).Holds p.1
  rebuilt : Rebuilt p.2

/-- Opening a store and stopping a process append no record of an attempt. -/
theorem noteLineage_quiet {sys : System} {event : Event} {lineage : Lineage}
    (hevent : ∀ env call, event ≠ .call env call) : noteLineage sys event lineage = lineage := by
  have hnone : ((sys.next event).disk.log.drop sys.disk.log.length).filter
      (fun frame => frame.type.OfAttempt) = [] := by
    cases event with
    | call env call => exact absurd rfl (hevent env call)
    | crash torn_bytes =>
      rw [next_crash]
      unfold System.diskAfterCrash
      split <;> simp
    | open_ config env boot =>
      cases hrun : sys.runtime with
      | some s =>
        rw [next_open_live hrun]
        simp
      | none =>
        rw [next_open hrun]
        rcases openRuntime_disk config env boot sys.disk with ⟨hsame, -⟩ | ⟨recovery, store, -, hopen,
          hgrown, hdisk, -⟩
        · simp [hsame]
        · show (((openRuntime config env boot sys.disk).2.log).drop _).filter _ = []
          rw [hdisk, ← (openStore_spec hopen).log]
          -- the records of a startup are of no attempt
          refine filter_appended (hgrown.mono fun type payload hstartup _ hattempt => ?_)
          rcases hstartup with rfl | rfl | rfl | rfl <;> simp [RecordType.OfAttempt] at hattempt
  unfold noteLineage
  rw [hnone, List.append_nil]
  cases event with
  | call env call => exact absurd rfl (hevent env call)
  | _ => rfl

/-- A call that keeps the order keeps the records in step with the attempts. -/
theorem LineageKept.call {sys : System} {lineage : Lineage} (h : LineageKept (sys, lineage))
    {env : Env} {call : Call} (hp : KeepsOrder (sys, lineage) (.call env call)) :
    Rebuilt (noteLineage sys (.call env call) lineage) := by
  unfold noteLineage
  cases hrun : sys.runtime with
  | none =>
    rw [next_call_closed hrun]
    simpa using h.rebuilt
  | some s =>
    rw [next_call hrun]
    cases hstore : s.store with
    | none =>
      have hsome := (perform_outcome env s call).isSome
      have hnone : (exec (perform env call) s).2.store = none := by simpa [hstore] using hsome
      have hdisk : (exec (perform env call) s).2.diskOr sys.disk = sys.disk := by
        rw [diskOr, hnone]
        rfl
      simpa [hdisk, hstore] using h.rebuilt
    | some store =>
      have hdurable : s.store.isSome := by simp [hstore]
      have hfiles : store.disk = sys.disk := h.canonical.synced s hrun store hstore
      obtain ⟨hrecords, hascends⟩ := hp s hrun hdurable
      by_cases hcheckpoint : call = .checkpoint
      · subst hcheckpoint
        obtain ⟨hchanged, store', hstore', hlog⟩ := (perform_outcome env s _).checkpoint_quiet hstore
        simp only [diskOr, hstore', Option.map_some, Option.getD_some, ← hfiles, hlog,
          List.filter_nil, List.append_nil, hdurable, if_true, hchanged,
          Option.elim_none]
        exact h.rebuilt
      rcases writes_version hrecords hcheckpoint with ⟨hchanged, hgrown⟩ | ⟨attempt, type, hw⟩
      · obtain ⟨store', hstore'⟩ := Option.isSome_iff_exists.mp (hgrown.isSome.trans hdurable)
        rw [hstore, hstore'] at hgrown
        simp only [diskOr, hstore', Option.map_some, Option.getD_some, ← hfiles,
          filter_appended hgrown, List.append_nil, hdurable, if_true, hchanged,
          Option.elim_none]
        exact h.rebuilt
      · have hstore' := hw.store
        rw [hstore, Option.map_some] at hstore'
        have hcanonical := (writes_versionOf hw.version).canonical (h.canonical.live s hrun)
        simp only [diskOr, hstore', Option.map_some, Option.getD_some, ← hfiles, appended,
          List.drop_left, hdurable, if_true, hw.changed, Option.elim_some]
        rw [List.filter_cons_of_pos (by simpa using hw.ofAttempt), List.filter_nil]
        exact h.rebuilt.record (hascends attempt hw.version hw.committable) hcanonical
          hw.ofAttempt _

/-- Every step that keeps the order keeps what is known. -/
theorem LineageKept.next {p : System × Lineage} (h : LineageKept p) {event : Event}
    (hp : KeepsOrder p event) :
    LineageKept (Runs.observe System.next noteLineage p event) := by
  obtain ⟨sys, lineage⟩ := p
  refine ⟨h.canonical.next canonicalAttempts_kept (by cases event <;> simp [OnCall]), ?_⟩
  cases event with
  | call env call => exact h.call hp
  | open_ config env boot =>
    show Rebuilt (noteLineage sys _ lineage)
    rw [noteLineage_quiet (by simp)]
    exact h.rebuilt
  | crash torn_bytes =>
    show Rebuilt (noteLineage sys _ lineage)
    rw [noteLineage_quiet (by simp)]
    exact h.rebuilt

/-- After every run in which the reports are recorded and no version ranks below the one before, the
records of attempts rebuild every attempt as it last stood live. -/
theorem attempts_replayed {events : List Event}
    (h : Runs.Along (Runs.observe System.next noteLineage) KeepsOrder ({}, {}) events) :
    Rebuilt (Runs.exec (Runs.observe System.next noteLineage) ({}, {}) events).2 := by
  have hstart : LineageKept ({}, {}) := ⟨Contents.Holds.start, fun s hs => ⟨s, rfl, hs⟩⟩
  exact (Runs.invariant (fun p event h hp => h.next hp) hstart h).rebuilt

instance KeepsOrder.instDecidable (p : System × Lineage) :
    (event : Event) → Decidable (KeepsOrder p event)
  | .call env call =>
    have _ : ∀ s : RuntimeState, Decidable (∀ attempt ∈ s.versionOf env call,
        s.Committable env (encodeAttempt attempt) → Ascends p.2.live attempt) :=
      fun _ => Option.decidableForallMem _
    inferInstanceAs (Decidable (∀ s ∈ p.1.runtime, s.store.isSome → RecordsReports s env call ∧ _))
  | .open_ _ _ _ | .crash _ => inferInstanceAs (Decidable True)

/-- A first attempt is acknowledged and fails, and after a checkpoint a second one is submitted. -/
def Sample.retried : List Event :=
  (Sample.submitted |> Sample.thenAcknowledge ⟨1, 1⟩ 1 1 true |>
    Sample.thenVerify ⟨1, 1⟩ 1 2 .notApplied) ++ [Sample.does .checkpoint] |>
    Sample.thenSubmit 1 1

/-- Four versions of two attempts are recorded, on both sides of a checkpoint. -/
theorem attempts_replayed_retried :
    Rebuilt (Runs.exec (Runs.observe System.next noteLineage) ({}, {}) Sample.retried).2 :=
  attempts_replayed (by decide +kernel)

/-- An attempt fails, and a later report proves nothing about it. -/
def Sample.failedThenUnknown : List Event :=
  Sample.submitted |> Sample.thenVerify ⟨1, 1⟩ 1 1 .notApplied |>
    Sample.thenVerify ⟨1, 1⟩ 1 2 .unknown

/-- The lineage after it. -/
def Sample.unprovenLineage : Lineage :=
  (Runs.exec (Runs.observe System.next noteLineage) ({}, {}) Sample.failedThenUnknown).2

/-- A report that proves nothing makes a failed attempt ambiguous, and replay keeps it failed. -/
theorem failed_attempt_kept :
    ¬ ∀ events, Rebuilt (Runs.exec (Runs.observe System.next noteLineage) ({}, {}) events).2 := by
  intro h
  obtain ⟨s, hreplay, hattempts⟩ := h Sample.failedThenUnknown (RuntimeState.initial {}) rfl
  have hstates : (Sample.unprovenLineage.records.foldlM applyReplayedFrame
      (RuntimeState.initial {})).toOption.map (fun s => s.attempts.map ApplyAttempt.state) ≠
        some (Sample.unprovenLineage.live.map ApplyAttempt.state) := by
    decide +kernel
  unfold Sample.unprovenLineage at hstates
  rw [hreplay, ← hattempts] at hstates
  exact hstates rfl

end Fcfn
