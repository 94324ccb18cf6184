import Fcfn.Engine.Planner
import Fcfn.Lib.Stateful
import Fcfn.Lib.Tables
import Fcfn.Runtime.Codec
import Fcfn.Store.Durable

/-!
# Runtime state

What a live coordinator incarnation owns, and the operations the coordinator and the executor
share. An operation is a computation on the state that may fail (`Op`): a failure keeps the state it
has reached. The clock and the file system are inputs of each call (`Env`). The counters the runtime
reports as statistics and its startup report are left out; no operation reads them. -/

namespace Fcfn

open Words Stateful Tables

/-- Bounded runtime configuration. -/
structure RuntimeConfig where
  /-- When false the runtime keeps no durable state. -/
  persist : Bool := true
  allow_torn_tail_recovery : Bool := true
  /-- The zero generation stands for the default policy. -/
  policy : ContainmentPolicy := { generation := 0 }
  /-- Initial topology definition; one without nodes means none. -/
  topology : TopologySpec := ⟨0, [], []⟩
  authorization_lease_millis : UInt64 := 30000
  require_evidence_confirmation_in_current_boot : Bool := true
  max_retained_plans : ℕ := kMaxRetainedPlans
  max_retained_attempts : ℕ := kMaxRetainedAttempts
  max_retained_transitions : ℕ := kMaxRetainedTransitions
  max_retained_detections : ℕ := kMaxRetainedDetections
  max_active_authorizations : ℕ := 64

/-- An authority-bound authorization. -/
structure AuthorizationRecord where
  id : AuthorizationId
  authority : AuthorityVector
  issued_sequence : Sequence
  issued_at_millis : UInt64
  expires_at_millis : UInt64
  allows_apply : Bool := true
  deriving DecidableEq, Repr

/-- An authorization in the table of those issued by this incarnation. -/
structure ActiveAuthorization where
  record : AuthorizationRecord
  fenced : Bool := false
  deriving DecidableEq, Repr

/-- What the clock and the file system do during one call. -/
structure Env where
  /-- The clock when it is first read. -/
  now_millis : UInt64
  /-- The clock when it is read again. -/
  later_millis : UInt64
  append_fails : Sequence → Bool
  snapshot : SnapshotOutcome := .published

/-- Everything a live coordinator incarnation owns. -/
structure RuntimeState where
  config : RuntimeConfig
  store : Option DurableStore := none
  epoch : CoordinatorEpoch := 0
  boot : BootIdentity := ⟨0, 0⟩
  sequence : Sequence := 0
  evidence_revision : EvidenceRevision := 0
  topology : Option Topology := none
  policy : ContainmentPolicy
  evidence : EvidenceVector := .empty
  /-- Boot in which each resource's evidence was last confirmed. Never restored. -/
  evidence_confirmation : List (ResourceId × BootId) := []
  /-- Contradictory evidence was reported and nothing newer has been taken in since. -/
  evidence_conflict : Bool := false
  plan_counter : PlanGeneration := 0
  transition_counter : TransitionGeneration := 0
  attempt_counter : AttemptSequence := 0
  boundary_counter : BoundaryGeneration := 0
  authorization_counter : Sequence := 0
  boundary : Option ContainmentBoundary := none
  boundary_plan : PlanGeneration := 0
  boundary_plan_digest : Digest := Digest.zero
  effect_state : EffectState := .notRequested
  /-- The effect of the surviving boundary must be verified again before it counts as current. -/
  effect_requires_reverification : Bool := false
  /-- Boot identity observed in the recovered log. -/
  last_known_boot : Option BootIdentity := none
  plans : List ContainmentPlan := []
  attempts : List ApplyAttempt := []
  transitions : List TransitionDecision := []
  detections : List DetectionRecord := []
  authorizations : List ActiveAuthorization := []
  fenced_boots : List BootId := []

/-- An operation of the runtime. -/
abbrev Op (α : Type) := ExceptT Status (StateM RuntimeState) α

namespace RuntimeState

/-- The authority in force. -/
def currentAuthority (s : RuntimeState) : AuthorityVector where
  epoch := s.epoch
  boot := s.boot
  policy := s.policy.generation
  topology := (s.topology.map fun topology => topology.generation).getD 0
  evidence_revision := s.evidence_revision
  evidence_digest := s.evidence.digest
  issued_sequence := s.sequence

/-- The retained plan of a generation. -/
def findPlan (s : RuntimeState) (generation : PlanGeneration) : Option ContainmentPlan :=
  s.plans.find? fun plan => plan.generation == generation

/-- The retained attempt of an identity. -/
def findAttempt (s : RuntimeState) (id : ApplyAttemptId) : Option ApplyAttempt :=
  s.attempts.find? fun attempt => attempt.id == id

/-- The authorization of an identity. -/
def findAuthorization (s : RuntimeState) (id : AuthorizationId) : Option ActiveAuthorization :=
  s.authorizations.find? fun entry => entry.record.id == id

/-- Change the retained attempt of an identity. -/
def setAttempt (s : RuntimeState) (id : ApplyAttemptId) (attempt : ApplyAttempt) : RuntimeState :=
  { s with attempts := updateFirst (fun a => a.id == id) (fun _ => attempt) s.attempts }

/-- Drop what exceeds the bounds of the tables. -/
def evictBoundedTables (s : RuntimeState) : RuntimeState :=
  { s with
    plans := dropExcess s.config.max_retained_plans s.plans
    transitions := dropExcess s.config.max_retained_transitions s.transitions
    detections := dropExcess s.config.max_retained_detections s.detections
    attempts := dropExcess s.config.max_retained_attempts s.attempts
    fenced_boots := dropExcess kMaxFencedBoots s.fenced_boots }

/-- The attempt for a plan with the highest sequence, the first of equals. -/
def newestAttempt (plan : PlanGeneration) (attempts : List ApplyAttempt) : Option ApplyAttempt :=
  attempts.foldl (fun newest attempt =>
    if attempt.id.plan ≠ plan then newest
    else if newest.all fun newest => newest.id.sequence < attempt.id.sequence then some attempt
    else newest) none

/-- The effect state that the table of attempts gives the current boundary. -/
def derivedEffectState (s : RuntimeState) : EffectState :=
  if s.effect_requires_reverification then .ambiguous
  else if s.boundary_plan = 0 ∧ s.boundary = none then .notRequested
  else
    match newestAttempt s.boundary_plan s.attempts with
    | none => .notRequested
    | some newest => newest.state

/-- Derive the effect state again. -/
def recomputeEffectState (s : RuntimeState) : RuntimeState :=
  { s with effect_state := s.derivedEffectState }

/-- Fence the authorization of an identity. -/
def fenceAuthorization (s : RuntimeState) (id : AuthorizationId) : RuntimeState :=
  { s with
    authorizations := updateFirst (fun entry => entry.record.id == id)
      (fun entry => { entry with fenced := true }) s.authorizations }

/-- Validate an authorization against the authority in force and its lease. One that no longer
holds is fenced. -/
def validateAuthorization (s : RuntimeState) (now : UInt64) (id : AuthorizationId)
    (require_apply : Bool) : Result AuthorizationRecord × RuntimeState :=
  if id = 0 then (fail .unauthorized "no authorization presented", s)
  else
    match s.findAuthorization id with
    | none => (fail .unauthorized "authorization is not active", s)
    | some entry =>
      if entry.fenced then
        (fail .fenced "authorization was fenced by a later incarnation", s)
      else
        let check := validateAuthority entry.record.authority s.currentAuthority
        if check ≠ .valid then (fail check.statusCode check.reason, s.fenceAuthorization id)
        else if now ≥ entry.record.expires_at_millis then
          (fail .staleGeneration "authorization lease expired", s.fenceAuthorization id)
        else if require_apply && !entry.record.allows_apply then
          (fail .denied "authorization does not permit apply submissions", s)
        else (.ok entry.record, s)

/-- The state once expired authorizations have been dropped. -/
def dropExpired (s : RuntimeState) (now : UInt64) : RuntimeState :=
  { s with
    authorizations := s.authorizations.dropWhile fun entry =>
      entry.record.expires_at_millis ≤ now }

/-- The state once a transition has been counted. -/
def countTransition (s : RuntimeState) : RuntimeState :=
  { s with transition_counter := s.transition_counter + 1 }

/-- The state once an attempt has been counted. -/
def countAttempt (s : RuntimeState) : RuntimeState :=
  { s with attempt_counter := s.attempt_counter + 1 }

end RuntimeState

open RuntimeState

/-- Validate an authorization. -/
def authorized (env : Env) (id : AuthorizationId) (require_apply : Bool) :
    Op AuthorizationRecord := do
  let s ← get
  let (outcome, s') := s.validateAuthorization env.now_millis id require_apply
  set s'
  lift outcome

/-- Append a durable record and publish the new sequence. -/
def commit (env : Env) (type : RecordType) (payload : Bytes) : Op Unit := do
  let s ← get
  match s.store with
  | some store =>
    let (outcome, store') := store.commit env.append_fails type payload
    set { s with store := some store' }
    lift outcome
    modify fun s => { s with sequence := store'.last_sequence }
  | none => modify fun s => { s with sequence := s.sequence + 1 }

/-! ## What the shared operations do -/

namespace RuntimeState

/-- The state after a record has been committed. -/
def committed (s : RuntimeState) (type : RecordType) (payload : Bytes) : RuntimeState :=
  { s with
    store := s.store.map fun store => store.appended type payload
    sequence := match s.store with
      | some store => store.last_sequence + 1
      | none => s.sequence + 1 }

/-- A record that can be committed: it fits, the sequence is not exhausted and the append
succeeds. -/
def Committable (s : RuntimeState) (env : Env) (payload : Bytes) : Prop :=
  ∀ store, s.store = some store →
    payload.length ≤ kMaxRecordPayloadBytes ∧ store.last_sequence < store.last_sequence + 1 ∧
      env.append_fails (store.last_sequence + 1) = false

instance Committable.instDecidable (s : RuntimeState) (env : Env) (payload : Bytes) :
    Decidable (s.Committable env payload) :=
  inferInstanceAs (Decidable (∀ store ∈ s.store, payload.length ≤ kMaxRecordPayloadBytes ∧
    store.last_sequence < store.last_sequence + 1 ∧
      env.append_fails (store.last_sequence + 1) = false))

end RuntimeState

/-- A commit succeeds and publishes the record's sequence, or fails and changes nothing. -/
theorem exec_commit (env : Env) (type : RecordType) (payload : Bytes) (s : RuntimeState) :
    (exec (commit env type payload) s = (.ok (), s.committed type payload) ∧
        s.Committable env payload) ∨
      (∃ status, exec (commit env type payload) s = (.error status, s)) ∧
        ¬ s.Committable env payload := by
  cases hstore : s.store with
  | none =>
    left
    simp only [commit, exec_bind, exec_get, hstore, exec_modify, committed, Committable,
      Option.map_none]
    exact ⟨trivial, by simp⟩
  | some store =>
    simp only [commit, exec_bind, exec_get, hstore, exec_set, exec_lift, committed, Committable,
      Option.map_some]
    rcases store.commit_spec env.append_fails type payload with
      ⟨heq, hlen, hlt, happend⟩ | ⟨⟨status, heq⟩, hnot⟩
    · left
      simp only [heq, exec_modify]
      exact ⟨rfl, fun _ h => Option.some.inj h ▸ ⟨hlen, hlt, happend⟩⟩
    · right
      refine ⟨⟨status, ?_⟩, fun h => hnot (h store rfl)⟩
      simp only [heq, ← hstore]

/-! ## The newest attempt -/

/-- An attempt after the others is the newest when its sequence is the highest. -/
theorem newestAttempt_append (plan : PlanGeneration) (attempts : List ApplyAttempt)
    (attempt : ApplyAttempt) :
    newestAttempt plan (attempts ++ [attempt]) =
      if attempt.id.plan ≠ plan then newestAttempt plan attempts
      else if (newestAttempt plan attempts).all fun newest =>
        newest.id.sequence < attempt.id.sequence then some attempt
      else newestAttempt plan attempts := by
  simp [newestAttempt, List.foldl_append]

/-- There is no newest attempt exactly when there is no attempt. -/
theorem newestAttempt_eq_none {plan : PlanGeneration} {attempts : List ApplyAttempt} :
    newestAttempt plan attempts = none ↔ ∀ attempt ∈ attempts, attempt.id.plan ≠ plan := by
  induction attempts using List.reverseRecOn with
  | nil => simp [newestAttempt]
  | append_singleton attempts last ih =>
    rw [newestAttempt_append]
    by_cases hplan : last.id.plan = plan
    · have hlast : ¬ ∀ a ∈ attempts ++ [last], a.id.plan ≠ plan :=
        fun h => h last (by simp) hplan
      rw [if_neg (by simpa using hplan)]
      refine iff_of_false ?_ hlast
      split
      · simp
      · rename_i hall
        intro hnone
        exact hall (by simp [hnone])
    · rw [if_pos hplan, ih]
      simp only [List.mem_append, List.mem_singleton]
      constructor
      · rintro h a (ha | rfl)
        · exact h a ha
        · exact hplan
      · exact fun h a ha => h a (Or.inl ha)

/-- How the newest attempt came about when one more was looked at. -/
theorem newestAttempt_append_eq_some {plan : PlanGeneration} {attempts : List ApplyAttempt}
    {last newest : ApplyAttempt} (h : newestAttempt plan (attempts ++ [last]) = some newest) :
    (newestAttempt plan attempts = some newest ∧
        (last.id.plan = plan → last.id.sequence ≤ newest.id.sequence)) ∨
      (newest = last ∧ last.id.plan = plan ∧
        ∀ n, newestAttempt plan attempts = some n → n.id.sequence < last.id.sequence) := by
  rw [newestAttempt_append] at h
  split at h
  · rename_i hplan
    exact Or.inl ⟨h, fun hp => absurd hp hplan⟩
  · rename_i hplan
    split at h
    · rename_i hall
      refine Or.inr ⟨(Option.some.inj h).symm, not_not.mp hplan, fun n hn => ?_⟩
      simpa [hn] using hall
    · rename_i hall
      refine Or.inl ⟨h, fun _ => ?_⟩
      simpa [h] using hall

/-- No attempt of the plan has a higher sequence than the newest. -/
theorem newestAttempt_le {plan : PlanGeneration} {attempts : List ApplyAttempt}
    {newest : ApplyAttempt} (h : newestAttempt plan attempts = some newest) :
    ∀ a ∈ attempts, a.id.plan = plan → a.id.sequence ≤ newest.id.sequence := by
  induction attempts using List.reverseRecOn generalizing newest with
  | nil => simp
  | append_singleton attempts last ih =>
    intro a ha hplan
    rcases newestAttempt_append_eq_some h with ⟨hold, hlast⟩ | ⟨rfl, -, hlt⟩
    · rcases List.mem_append.mp ha with hmem | hmem
      · exact ih hold a hmem hplan
      · obtain rfl := List.mem_singleton.mp hmem
        exact hlast hplan
    · rcases List.mem_append.mp ha with hmem | hmem
      · cases hn : newestAttempt plan attempts with
        | none => exact absurd hplan (newestAttempt_eq_none.mp hn a hmem)
        | some n => exact UInt64.le_of_lt (UInt64.lt_of_le_of_lt (ih hn a hmem hplan) (hlt n hn))
      · obtain rfl := List.mem_singleton.mp hmem
        exact UInt64.le_refl _

/-- The newest attempt of a plan is one of the plan, and the first with its identity. -/
theorem newestAttempt_find {plan : PlanGeneration} {attempts : List ApplyAttempt}
    {newest : ApplyAttempt} (h : newestAttempt plan attempts = some newest) :
    newest.id.plan = plan ∧ attempts.find? (fun a => a.id == newest.id) = some newest := by
  induction attempts using List.reverseRecOn generalizing newest with
  | nil => exact absurd h (by simp [newestAttempt])
  | append_singleton attempts last ih =>
    rcases newestAttempt_append_eq_some h with ⟨hold, -⟩ | ⟨rfl, hplan, hlt⟩
    · obtain ⟨hplan, hfind⟩ := ih hold
      exact ⟨hplan, by rw [List.find?_append, hfind]; rfl⟩
    · refine ⟨hplan, ?_⟩
      have hnone : attempts.find? (fun a => a.id == newest.id) = none := by
        rw [List.find?_eq_none]
        intro a ha hid
        have hid : a.id = newest.id := by simpa using hid
        have hpa : a.id.plan = plan := by rw [hid, hplan]
        cases hn : newestAttempt plan attempts with
        | none => exact newestAttempt_eq_none.mp hn a ha hpa
        | some n =>
          have hle := newestAttempt_le hn a ha hpa
          have hbelow := hlt n hn
          rw [hid] at hle
          exact absurd hbelow (UInt64.not_lt.mpr hle)
      rw [List.find?_append, hnone]
      simp

/-- An attempt of the plan that is the first with its identity, and that no attempt of the plan
exceeds, is the newest. -/
theorem newestAttempt_of_le {plan : PlanGeneration} {attempts : List ApplyAttempt}
    {newest : ApplyAttempt} (hplan : newest.id.plan = plan)
    (hfind : attempts.find? (fun a => a.id == newest.id) = some newest)
    (hle : ∀ a ∈ attempts, a.id.plan = plan → a.id.sequence ≤ newest.id.sequence) :
    newestAttempt plan attempts = some newest := by
  have hmem := List.mem_of_find?_eq_some hfind
  cases hn : newestAttempt plan attempts with
  | none => exact absurd hplan (newestAttempt_eq_none.mp hn newest hmem)
  | some n =>
    obtain ⟨hpn, hfn⟩ := newestAttempt_find hn
    have hsequence : n.id.sequence = newest.id.sequence :=
      UInt64.le_antisymm (hle n (List.mem_of_find?_eq_some hfn) hpn)
        (newestAttempt_le hn newest hmem hplan)
    have hid : n.id = newest.id := by
      cases hni : n.id
      cases hwi : newest.id
      simp_all
    rw [hid] at hfn
    exact hfn.symm.trans hfind

/-- Updating an attempt under its identity updates the newest when it is that one. -/
theorem newestAttempt_updateFirst (plan : PlanGeneration) (attempts : List ApplyAttempt)
    {id : ApplyAttemptId} {attempt' : ApplyAttempt} (hid : attempt'.id = id) :
    newestAttempt plan (updateFirst (fun a => a.id == id) (fun _ => attempt') attempts) =
      (newestAttempt plan attempts).map fun n => if n.id = id then attempt' else n := by
  have hids : (updateFirst (fun a => a.id == id) (fun _ => attempt') attempts).map
      ApplyAttempt.id = attempts.map ApplyAttempt.id :=
    map_updateFirst attempts fun a ha => by
      rw [hid]
      exact (by simpa using ha : a.id = id).symm
  have hmem : ∀ a ∈ updateFirst (fun a => a.id == id) (fun _ => attempt') attempts,
      ∃ b ∈ attempts, b.id = a.id := by
    intro a ha
    have hin := List.mem_map_of_mem (f := ApplyAttempt.id) ha
    rw [hids] at hin
    exact List.mem_map.mp hin
  cases hn : newestAttempt plan attempts with
  | none =>
    rw [Option.map_none, newestAttempt_eq_none]
    intro a ha
    obtain ⟨b, hb, hba⟩ := hmem a ha
    rw [← hba]
    exact newestAttempt_eq_none.mp hn b hb
  | some n =>
    obtain ⟨hplan, hfind⟩ := newestAttempt_find hn
    have hle : ∀ a ∈ updateFirst (fun a => a.id == id) (fun _ => attempt') attempts,
        a.id.plan = plan → a.id.sequence ≤ n.id.sequence := by
      intro a ha hpa
      obtain ⟨b, hb, hba⟩ := hmem a ha
      rw [← hba] at hpa ⊢
      exact newestAttempt_le hn b hb hpa
    rw [Option.map_some]
    by_cases hni : n.id = id
    · rw [if_pos hni]
      have hsame : attempt'.id = n.id := hid.trans hni.symm
      refine newestAttempt_of_le (by rw [hsame, hplan]) ?_ (by rw [hsame]; exact hle)
      rw [hni] at hfind
      rw [hid, find?_updateFirst_self _ (fun _ _ => by simp [hid]), hfind]
      rfl
    · rw [if_neg hni]
      refine newestAttempt_of_le hplan ?_ hle
      rw [find?_updateFirst_of_ne _ fun a ha => ?_, hfind]
      have hai : a.id = id := by simpa using ha
      exact ⟨by simp [hai, Ne.symm hni], by simp [hid, Ne.symm hni]⟩

end Fcfn
