import Fcfn.Lib.Sorted
import Fcfn.Runtime.Enactment
import Fcfn.Runtime.Identities
import Mathlib.Data.List.TakeWhile

/-!
# What an authorization is bound to

An authorization carries the authority that was in force when it was issued, and a call that
presents it gets past validation only under the same authority. A change of the inputs raises one of
the generations in that authority and lowers none, so that no later change brings it back, as long as
the counter of evidence revisions does not wrap around. An authorization that was found outdated or
expired is fenced, and its identity stays refused as long as it is not issued again. -/

namespace Fcfn

open Words Stateful RuntimeState DurableStore Tables Sorted

/-! ## Using an authorization -/

/-- Whether a call needs an authorization that permits apply submissions. -/
def Call.requiresApply : Call → Bool
  | .submitApply _ _ _ => true
  | _ => false

namespace RuntimeState

/-- A call that presents the identity gets past validation. -/
def Validates (s : RuntimeState) (env : Env) (call : Call) (id : AuthorizationId) : Prop :=
  (s.validateAuthorization env.now_millis id call.requiresApply).1.isOk

/-- An authorization that was not refused before is outdated or expired. -/
def Expels (s : RuntimeState) (now : UInt64) (id : AuthorizationId) : Prop :=
  id ≠ 0 ∧ ∃ entry ∈ s.findAuthorization id, entry.fenced = false ∧
    (validateAuthority entry.record.authority s.currentAuthority ≠ .valid ∨
      entry.record.expires_at_millis ≤ now)

instance Validates.instDecidable (s : RuntimeState) (env : Env) (call : Call)
    (id : AuthorizationId) : Decidable (s.Validates env call id) :=
  inferInstanceAs (Decidable (_ = true))

instance Expels.instDecidable (s : RuntimeState) (now : UInt64) (id : AuthorizationId) :
    Decidable (s.Expels now id) :=
  have _ : Decidable (∃ entry ∈ s.findAuthorization id, entry.fenced = false ∧
    (validateAuthority entry.record.authority s.currentAuthority ≠ .valid ∨
      entry.record.expires_at_millis ≤ now)) := Option.decidableExistsMem _
  inferInstanceAs (Decidable (_ ∧ _))

/-- What gets past validation is in the table, holds under the authority in force and has not
expired. -/
theorem validates_iff {s : RuntimeState} {env : Env} {call : Call} {id : AuthorizationId} :
    s.Validates env call id ↔ id ≠ 0 ∧ ∃ entry, s.findAuthorization id = some entry ∧
      entry.fenced = false ∧ entry.record.authority.Agrees s.currentAuthority ∧
      env.now_millis < entry.record.expires_at_millis ∧
      (call.requiresApply = true → entry.record.allows_apply = true) := by
  constructor
  · intro h
    -- one test of the source after another, each of them refuses on its own
    unfold Validates validateAuthorization at h
    split at h
    · exact absurd h (by simp [fail, Except.isOk, Except.toBool])
    rename_i hzero
    split at h
    · exact absurd h (by simp [fail, Except.isOk, Except.toBool])
    rename_i entry hfind
    split at h
    · exact absurd h (by simp [fail, Except.isOk, Except.toBool])
    rename_i hfenced
    simp only at h
    split at h
    · exact absurd h (by simp [fail, Except.isOk, Except.toBool])
    rename_i hvalid
    split at h
    · exact absurd h (by simp [fail, Except.isOk, Except.toBool])
    rename_i hlease
    split at h
    · exact absurd h (by simp [fail, Except.isOk, Except.toBool])
    rename_i happly
    exact ⟨hzero, entry, hfind, by simpa using hfenced,
      validateAuthority_eq_valid.mp (not_not.mp hvalid), UInt64.not_le.mp hlease, by
        simpa using happly⟩
  · rintro ⟨hzero, entry, hfind, hfenced, hagrees, hlease, happly⟩
    have hnow : ¬ env.now_millis ≥ entry.record.expires_at_millis := UInt64.not_le.mpr hlease
    have hallowed : (call.requiresApply && !entry.record.allows_apply) = false := by
      cases hrequires : call.requiresApply with
      | false => rfl
      | true => simp [happly hrequires]
    unfold Validates validateAuthorization
    simp only [hzero, hfind, hfenced, validateAuthority_eq_valid.mpr hagrees, hnow, hallowed,
      Bool.false_eq_true, ne_eq, not_true, if_false]
    rfl

/-- Validation fences exactly what it expels. -/
theorem validateAuthorization_fences (s : RuntimeState) (now : UInt64) (id : AuthorizationId)
    (require_apply : Bool) : (s.validateAuthorization now id require_apply).2 =
      if s.Expels now id then s.fenceAuthorization id else s := by
  unfold validateAuthorization Expels
  by_cases hzero : id = 0
  · simp [hzero]
  simp only [hzero, if_false, ne_eq, not_false_eq_true, true_and]
  cases hfind : s.findAuthorization id with
  | none => simp
  | some entry =>
    simp only [Option.mem_def, Option.some.injEq, exists_eq_left']
    cases hfenced : entry.fenced with
    | true => simp
    | false =>
      simp only [Bool.false_eq_true, if_false, true_and]
      by_cases hvalid : validateAuthority entry.record.authority s.currentAuthority = .valid
      · by_cases hlease : entry.record.expires_at_millis ≤ now
        · simp [hvalid, hlease]
        · have hnow : ¬ now ≥ entry.record.expires_at_millis := hlease
          simp only [hvalid, hlease, not_true, if_false, or_self]
          split <;> rfl
      · simp [hvalid]

end RuntimeState

/-- The table of authorizations is left alone. -/
def SameAuthorizations (s s' : RuntimeState) : Prop := s'.authorizations = s.authorizations

instance isPreorder_sameAuthorizations : IsPreorder RuntimeState SameAuthorizations where
  refl _ := rfl
  trans _ _ _ h h' := Eq.trans h' h

/-- A commit leaves the table of authorizations alone. -/
theorem commit_sameAuthorizations (env : Env) (type : RecordType) (payload : Bytes) :
    Moves SameAuthorizations (commit env type payload) := by
  intro s
  rcases exec_commit env type payload s with ⟨hc, -⟩ | ⟨⟨status, hc⟩, -⟩
  · rw [hc]
    rfl
  · rw [hc]
    rfl

/-- Recording a refusal leaves the table of authorizations alone. -/
theorem refuseTransition_sameAuthorizations (env : Env) (refusal : Refusal) :
    Moves SameAuthorizations (refuseTransition env refusal) := by
  unfold refuseTransition
  refine Moves.bind Moves.get fun s => Moves.bind (commit_sameAuthorizations _ _ _) fun _ =>
    Moves.bind Moves.get fun s => Moves.bind (Moves.modify fun s => ?_) fun _ => Moves.pure _
  rfl

/-- Accepting a transition leaves the table of authorizations alone. -/
theorem acceptTransition_sameAuthorizations (env : Env) (plan : ContainmentPlan)
    (decision : TransitionDecision) :
    Moves SameAuthorizations (acceptTransition env plan decision) := by
  unfold acceptTransition
  refine Moves.bind (commit_sameAuthorizations _ _ _) fun _ => Moves.bind Moves.get fun s =>
    Moves.bind (commit_sameAuthorizations _ _ _) fun _ => Moves.bind (Moves.modify fun s => ?_)
      fun _ => Moves.pure _
  rfl

/-- What follows a validation leaves the table of authorizations as the validation does. -/
theorem authorized_sameAuthorizations {α : Type} (env : Env) (id : AuthorizationId)
    (require_apply : Bool) {f : AuthorizationRecord → Op α}
    (h : ∀ record, Moves SameAuthorizations (f record)) (s : RuntimeState) :
    (exec (authorized env id require_apply >>= f) s).2.authorizations =
      (s.validateAuthorization env.now_millis id require_apply).2.authorizations := by
  rw [exec_bind, exec_authorized]
  cases hvalidate : s.validateAuthorization env.now_millis id require_apply with
  | mk outcome s' =>
    cases outcome with
    | error status => rfl
    | ok record => exact h record s'

/-- A call that presents an identity changes the table of authorizations by validating it. -/
theorem perform_presents {call : Call} {id : AuthorizationId} (h : call.presents = some id)
    (env : Env) (s : RuntimeState) :
    (exec (perform env call) s).2.authorizations =
      if s.Expels env.now_millis id then (s.fenceAuthorization id).authorizations
      else s.authorizations := by
  -- whether an attempt is required matters after the fencing only
  have hfences : ∀ require_apply,
      (s.validateAuthorization env.now_millis id require_apply).2.authorizations =
        if s.Expels env.now_millis id then (s.fenceAuthorization id).authorizations
        else s.authorizations := by
    intro require_apply
    rw [validateAuthorization_fences]
    split <;> rfl
  cases call with
  | plan authorization =>
    obtain rfl := Option.some.inj h
    rw [← hfences false, perform, exec_map]
    refine authorized_sameAuthorizations env authorization false (fun record => ?_) s
    refine Moves.bind Moves.get fun s => ?_
    split
    · exact Moves.throw _
    · refine Moves.bind (Moves.lift _) fun plan => Moves.bind (commit_sameAuthorizations _ _ _)
        fun _ => Moves.bind (Moves.modify fun s => ?_) fun _ => Moves.pure _
      rfl
  | transition request =>
    obtain rfl := Option.some.inj h
    rw [← hfences false, perform, exec_map, transition, exec_modify_bind, exec_get_bind]
    -- the transition is counted before its authorization is validated
    have hcounted : (s.countTransition.validateAuthorization env.now_millis request.authorization
        false).2.authorizations = (s.validateAuthorization env.now_millis request.authorization
          false).2.authorizations := by
      rw [validateAuthorization_fences, hfences]
      split <;> rename_i hexpels
      · exact (if_pos hexpels).symm
      · exact (if_neg hexpels).symm
    rw [← hcounted]
    cases hvalidate : s.countTransition.validateAuthorization env.now_millis request.authorization
      false with
    | mk outcome s' =>
      simp only [exec_bind, exec_set]
      cases outcome with
      | error status => exact refuseTransition_sameAuthorizations env _ s'
      | ok record =>
        simp only
        cases s'.checkTransition request (s.countTransition.startDecision request) with
        | error refusal => exact refuseTransition_sameAuthorizations env _ s'
        | ok checked => exact acceptTransition_sameAuthorizations env _ _ s'
  | submitApply authorization generation plan_digest =>
    obtain rfl := Option.some.inj h
    rw [← hfences true, perform, exec_map]
    refine authorized_sameAuthorizations env authorization true (fun record => ?_) s
    refine Moves.bind Moves.get fun s => Moves.bind (Moves.lift _) fun plan =>
      Moves.bind (Moves.modify fun s => rfl) fun _ => Moves.bind Moves.get fun s =>
        Moves.bind (commit_sameAuthorizations _ _ _) fun _ => Moves.bind (Moves.modify fun s => ?_)
          fun _ => Moves.pure _
    rfl
  | _ => exact absurd h (by simp [Call.presents])

/-! ## The generations of an authority -/

/-- The generations of a vector are at most those of another. -/
structure AuthorityVector.AtMost (v v' : AuthorityVector) : Prop where
  policy : v.policy ≤ v'.policy
  topology : v.topology ≤ v'.topology
  evidence_revision : v.evidence_revision ≤ v'.evidence_revision

/-- Some generation of a vector is below that of another, and none is above. -/
def AuthorityVector.Older (v v' : AuthorityVector) : Prop := v.AtMost v' ∧ ¬ v'.AtMost v

namespace AuthorityVector

variable {v v' v'' : AuthorityVector}

theorem Agrees.trans (h : v.Agrees v') (h' : v'.Agrees v'') : v.Agrees v'' where
  epoch := h.epoch.trans h'.epoch
  boot := h.boot.trans h'.boot
  policy := h.policy.trans h'.policy
  topology := h.topology.trans h'.topology
  evidence_revision := h.evidence_revision.trans h'.evidence_revision
  evidence_digest := h.evidence_digest.trans h'.evidence_digest

theorem AtMost.trans (h : v.AtMost v') (h' : v'.AtMost v'') : v.AtMost v'' where
  policy := UInt64.le_trans h.policy h'.policy
  topology := UInt64.le_trans h.topology h'.topology
  evidence_revision := UInt64.le_trans h.evidence_revision h'.evidence_revision

/-- Vectors that agree have the same generations. -/
theorem Agrees.atMost (h : v.Agrees v') : v.AtMost v' ∧ v'.AtMost v := by
  obtain ⟨-, -, hpolicy, htopology, hrevision, -⟩ := h
  refine ⟨⟨?_, ?_, ?_⟩, ⟨?_, ?_, ?_⟩⟩ <;> simp [hpolicy, htopology, hrevision]

/-- An older vector stays older. -/
theorem Older.trans (h : v.Older v') (h' : v'.AtMost v'') : v.Older v'' :=
  ⟨h.1.trans h', fun hback => h.2 (h'.trans hback)⟩

/-- A vector that agrees with an older one is older. -/
theorem Agrees.older (h : v.Agrees v') (h' : v'.Older v'') : v.Older v'' :=
  ⟨h.atMost.1.trans h'.1, fun hback => h'.2 (hback.trans h.atMost.1)⟩

/-- An older vector does not agree. -/
theorem Older.not_agrees (h : v.Older v') : ¬ v.Agrees v' := fun hagrees => h.2 hagrees.atMost.2

end AuthorityVector

/-- The counters of authorizations and of evidence revisions do not wrap around. -/
def CountersAdvance (s : RuntimeState) (_env : Env) : Call → Prop
  | .authorize => s.authorization_counter + 1 ≠ 0
  | .recordDetection observation => ∀ merged ∈ (s.evidence.merged observation).toOption,
    merged.digest ≠ s.evidence.digest → s.evidence_revision + 1 ≠ 0
  | _ => True

/-- A counter that does not wrap around goes up. -/
theorem lt_succ_of_ne_zero {counter : UInt64} (h : counter + 1 ≠ 0) : counter < counter + 1 := by
  rw [UInt64.lt_iff_toNat_lt, UInt64.toNat_add]
  have hne : (counter + 1).toNat ≠ 0 := fun hzero => h (UInt64.toNat_inj.mp hzero)
  rw [UInt64.toNat_add] at hne
  have hlt := counter.toNat_lt
  simp only [UInt64.toNat_one] at *
  omega

/-- A call that puts another authority in force raises a generation, another keeps the inputs. -/
theorem Outcome.authority {env : Env} {s s' : RuntimeState} {call : Call} {reply : Result Reply}
    (h : Outcome env s call reply s') (hp : CountersAdvance s env call) :
    SameInputs s s' ∨ s.currentAuthority.Older s'.currentAuthority := by
  rcases h.sameInputs with hsame | ⟨generation, rfl⟩ | ⟨generation, rfl⟩ | ⟨record, rfl, hchanged⟩
  · exact Or.inl hsame
  · cases h with
    -- a runtime without a topology counts as the unset generation
    | @topology _ t _ newer =>
      right
      have hnewer : s.currentAuthority.topology < t.generation := by
        unfold currentAuthority
        cases htopology : s.topology with
        | none => exact UInt64.pos_iff_ne_zero.mpr t.valid.generation_ne_zero
        | some current => exact newer current htopology
      refine ⟨⟨UInt64.le_refl _, UInt64.le_of_lt hnewer, UInt64.le_refl _⟩, fun hback => ?_⟩
      exact absurd hnewer (UInt64.not_lt.mpr hback.topology)
  · cases h with
    | policy _ newer =>
      refine Or.inr ⟨⟨UInt64.le_of_lt newer, UInt64.le_refl _, UInt64.le_refl _⟩, fun hback => ?_⟩
      exact absurd newer (UInt64.not_lt.mpr hback.policy)
  · cases h with
    -- a confirmation leaves the digest, and then the inputs are the same
    | confirmed => exact absurd rfl hchanged
    | detected merges changed =>
      have hadvances := lt_succ_of_ne_zero (hp _ (mem_toOption.mpr merges) changed)
      refine Or.inr ⟨⟨UInt64.le_refl _, UInt64.le_refl _, UInt64.le_of_lt hadvances⟩,
        fun hback => ?_⟩
      exact absurd hadvances (UInt64.not_lt.mpr hback.evidence_revision)

/-- A call that puts another authority in force raises a generation. -/
theorem older_of_renews {sys : System} {s : RuntimeState} (hrun : sys.runtime = some s) {env : Env}
    {call : Call} (hp : CountersAdvance s env call) (hrenews : renews sys (.call env call) = true) :
    s.currentAuthority.Older (exec (perform env call) s).2.currentAuthority := by
  have ho := perform_outcome env s call
  unfold renews at hrenews
  simp only [reply_call hrun, System.evidenceDigest, next_call hrun, hrun, Option.map_some]
    at hrenews
  generalize (exec (perform env call) s).1 = reply at ho hrenews
  generalize (exec (perform env call) s).2 = s' at ho hrenews ⊢
  refine (ho.authority hp).resolve_left fun hsame => ?_
  cases ho with
  | @topology _ t _ newer =>
    exact UInt64.lt_irrefl _ (newer t hsame.topology.symm)
  | @policy policy _ newer =>
    have hpolicy : policy = s.policy := hsame.policy
    rw [hpolicy] at newer
    exact UInt64.lt_irrefl _ newer
  | confirmed => exact absurd hrenews (by simp [confirm])
  | @detected _ merged _ changed =>
    have hevidence : merged = s.evidence := hsame.evidence
    rw [hevidence] at changed
    exact changed rfl
  | _ => exact absurd hrenews (by simp)

/-! ## The table of authorizations -/

/-- The authorization that a reply issues. -/
def Reply.record : Result Reply → Option AuthorizationRecord
  | .ok (.authorization record) => some record
  | _ => none

/-- The identity of an entry, as a number. -/
def ActiveAuthorization.key (entry : ActiveAuthorization) : ℕ := entry.record.id.toNat

/-- Some entries were dropped and some were fenced. -/
structure Survives (entries entries' : List ActiveAuthorization) : Prop where
  keys : (entries'.map ActiveAuthorization.key).Sublist (entries.map ActiveAuthorization.key)
  fenced : ∀ entry' ∈ entries', ∃ entry ∈ entries, entry.record = entry'.record ∧
    (entry.fenced = true → entry'.fenced = true)

/-- Dropping entries. -/
theorem survives_of_sublist {entries entries' : List ActiveAuthorization}
    (h : entries'.Sublist entries) : Survives entries entries' :=
  ⟨h.map _, fun entry' hentry => ⟨entry', h.subset hentry, rfl, id⟩⟩

/-- Fencing an entry. -/
theorem survives_fenceAuthorization (s : RuntimeState) (id : AuthorizationId) :
    Survives s.authorizations (s.fenceAuthorization id).authorizations := by
  constructor
  · have hkeys : (s.fenceAuthorization id).authorizations.map ActiveAuthorization.key =
        s.authorizations.map ActiveAuthorization.key := map_updateFirst _ fun _ _ => rfl
    rw [hkeys]
  · intro entry' hentry
    rcases mem_updateFirst hentry with hold | ⟨entry, hfind, rfl⟩
    · exact ⟨entry', hold, rfl, fun h => h⟩
    · exact ⟨entry, List.mem_of_find?_eq_some hfind, rfl, fun _ => rfl⟩

/-- What a call does to the table of authorizations: it issues one, or the table survives. -/
inductive TableAfter (s : RuntimeState) (call : Call) (reply : Result Reply) (s' : RuntimeState) :
    Prop
  | kept (survives : Survives s.authorizations s'.authorizations)
      (counter : s'.authorization_counter = s.authorization_counter)
      (quiet : Reply.record reply = none)
  | issued (kept : List ActiveAuthorization) (record : AuthorizationRecord)
      (called : call = .authorize) (survives : Survives s.authorizations kept)
      (table : s'.authorizations = kept ++ [{ record := record }])
      (id : record.id = s.authorization_counter + 1)
      (authority : record.authority = s.currentAuthority)
      (counter : s'.authorization_counter = s.authorization_counter + 1)
      (replied : Reply.record reply = some record)

theorem Outcome.tableAfter {env : Env} {s s' : RuntimeState} {call : Call} {reply : Result Reply}
    (h : Outcome env s call reply s') : TableAfter s call reply s' := by
  have hsame : Survives s.authorizations s.authorizations := survives_of_sublist (List.Sublist.refl _)
  have hdropped := survives_of_sublist (List.dropWhile_sublist (l := s.authorizations)
    fun entry => decide (entry.record.expires_at_millis ≤ env.now_millis))
  cases h with
  | fenced _ _ id => exact .kept (survives_fenceAuthorization s id) rfl rfl
  | full => exact .kept hdropped rfl rfl
  | authorization => exact .issued _ _ rfl hdropped rfl rfl rfl rfl rfl
  | transitionFailed _ _ counted =>
    rcases counted with rfl | rfl
    · exact .kept hsame rfl rfl
    · exact .kept (survives_fenceAuthorization s _) rfl rfl
  | transitionRefused _ _ _ counted =>
    rcases counted with rfl | rfl
    · exact .kept hsame rfl rfl
    · exact .kept (survives_fenceAuthorization s _) rfl rfl
  | ackMismatched _ _ _ taken => rcases taken with rfl | ⟨-, rfl⟩ <;> exact .kept hsame rfl rfl
  | verified =>
    rw [adoptVerified_eq]
    exact .kept hsame rfl rfl
  | _ => exact .kept hsame rfl rfl

/-! ## The ledger -/

/-- The authorizations that were issued since the inputs last changed, and the identities that were
refused because their authorization was outdated or expired. -/
structure Ledger where
  issued : List AuthorizationRecord := []
  refused : List AuthorizationId := []

/-- The identity that a call presents, if validation expels it. -/
def RuntimeState.expelled (s : RuntimeState) (env : Env) (call : Call) : Option AuthorizationId :=
  call.presents.filter fun id => s.Expels env.now_millis id

/-- Note what a step issues and what it refuses. A new incarnation starts afresh. -/
def noteLedger (sys : System) (event : Event) (ledger : Ledger) : Ledger :=
  match event with
  | .open_ _ _ _ => if sys.runtime.isSome then ledger else {}
  | .crash _ => {}
  | .call env call =>
    { issued :=
        if renews sys event then []
        else ledger.issued ++ (Reply.record (sys.reply event)).toList
      refused := ledger.refused ++ (sys.runtime.bind fun s => s.expelled env call).toList }

/-- The table of the live runtime agrees with the ledger. -/
structure TableKept (s : RuntimeState) (ledger : Ledger) : Prop where
  issued : ∀ entry ∈ s.authorizations,
    (entry.record ∈ ledger.issued ∧ entry.record.authority.Agrees s.currentAuthority) ∨
      entry.record.authority.Older s.currentAuthority
  ascending : Ascending ActiveAuthorization.key s.authorizations
  counted : ∀ entry ∈ s.authorizations, entry.record.id ≤ s.authorization_counter
  refused : ∀ id ∈ ledger.refused, id ≤ s.authorization_counter ∧
    ∀ entry ∈ s.authorizations, entry.record.id = id → entry.fenced = true

/-- A table that survives keeps its entries in order and counted. -/
theorem Survives.ascending {entries entries' : List ActiveAuthorization}
    (h : Survives entries entries') (hasc : Ascending ActiveAuthorization.key entries) :
    Ascending ActiveAuthorization.key entries' :=
  List.Pairwise.sublist h.keys hasc

/-- What validation expels is counted, and every entry of its identity is fenced afterwards. -/
theorem TableKept.expelled {s s' : RuntimeState} {ledger : Ledger} (h : TableKept s ledger) {now : UInt64}
    {id : AuthorizationId} (hexpels : s.Expels now id)
    (htable : s'.authorizations = (s.fenceAuthorization id).authorizations) :
    id ≤ s.authorization_counter ∧
      ∀ entry ∈ s'.authorizations, entry.record.id = id → entry.fenced = true := by
  obtain ⟨-, entry, hfind, -⟩ := hexpels
  have hid : entry.record.id = id := by simpa using List.find?_some hfind
  refine ⟨hid ▸ h.counted entry (List.mem_of_find?_eq_some hfind), fun entry' hentry' hid' => ?_⟩
  rw [htable] at hentry'
  have hfenced : { entry with fenced := true } ∈ (s.fenceAuthorization id).authorizations :=
    change_mem_updateFirst hfind
  -- the identities are distinct, so the entry is the one that was fenced
  have hasc := (survives_fenceAuthorization s id).ascending h.ascending
  have heq := hasc.eq_of_key hentry' hfenced (by
    unfold ActiveAuthorization.key
    rw [hid', ← hid])
  rw [heq]

/-- The authority of an issued authorization is that in force or an older one, after a call too. -/
theorem authority_of_noted {sys : System} {s : RuntimeState} {ledger : Ledger}
    (hrun : sys.runtime = some s) {env : Env} {call : Call} (hp : CountersAdvance s env call)
    {record : AuthorizationRecord} (hrecord : (record ∈ ledger.issued ∨
      Reply.record (sys.reply (.call env call)) = some record) ∧
        record.authority.Agrees s.currentAuthority ∨
      record.authority.Older s.currentAuthority) :
    (record ∈ (noteLedger sys (.call env call) ledger).issued ∧
        record.authority.Agrees (exec (perform env call) s).2.currentAuthority) ∨
      record.authority.Older (exec (perform env call) s).2.currentAuthority := by
  unfold noteLedger
  cases hrenews : renews sys (.call env call) with
  | true =>
    have hraised := older_of_renews hrun hp hrenews
    right
    rcases hrecord with ⟨-, hagrees⟩ | holder
    · exact hagrees.older hraised
    · exact holder.trans hraised.1
  | false =>
    have hsame := (sameInputs_of_keeps hrun hrenews).agrees
    rcases hrecord with ⟨hissued, hagrees⟩ | holder
    · refine Or.inl ⟨?_, hagrees.trans hsame⟩
      rcases hissued with hold | hnew
      · exact List.mem_append_left _ hold
      · exact List.mem_append_right _ (by simp [hnew])
    · exact Or.inr (holder.trans hsame.atMost.1)

/-- A call keeps the table in agreement with the ledger. -/
theorem TableKept.call {sys : System} {s : RuntimeState} {ledger : Ledger} (h : TableKept s ledger)
    (hrun : sys.runtime = some s) {env : Env} {call : Call} (hp : CountersAdvance s env call) :
    TableKept (exec (perform env call) s).2 (noteLedger sys (.call env call) ledger) := by
  have htable := (perform_outcome env s call).tableAfter
  have hpresents := fun id (hid : call.presents = some id) => perform_presents hid env s
  have hauthority := @authority_of_noted sys s ledger hrun env call hp
  rw [reply_call hrun] at hauthority
  have hrefused : (noteLedger sys (.call env call) ledger).refused =
      ledger.refused ++ (s.expelled env call).toList := by
    simp [noteLedger, hrun]
  -- from here on the call is known by its outcome alone
  generalize noteLedger sys (.call env call) ledger = ledger' at *
  generalize (exec (perform env call) s).1 = reply at *
  generalize (exec (perform env call) s).2 = s' at *
  cases htable with
  | kept survives counter quiet =>
    constructor
    · intro entry' hentry'
      obtain ⟨entry, hentry, hrecord, -⟩ := survives.fenced entry' hentry'
      rw [← hrecord]
      exact hauthority ((h.issued entry hentry).imp_left fun hin => ⟨Or.inl hin.1, hin.2⟩)
    · exact survives.ascending h.ascending
    · intro entry' hentry'
      obtain ⟨entry, hentry, hrecord, -⟩ := survives.fenced entry' hentry'
      rw [counter, ← hrecord]
      exact h.counted entry hentry
    · intro id hid
      rw [hrefused] at hid
      rw [counter]
      rcases List.mem_append.mp hid with hold | hnew
      · obtain ⟨hle, hfenced⟩ := h.refused id hold
        refine ⟨hle, fun entry' hentry' hid' => ?_⟩
        obtain ⟨entry, hentry, hrecord, hkeeps⟩ := survives.fenced entry' hentry'
        exact hkeeps (hfenced entry hentry (by rw [hrecord, hid']))
      -- a refusal that is new is one of this call, which fences what it presents
      · obtain ⟨hcall, hexpels⟩ := Option.mem_filter_iff.mp (Option.mem_toList.mp hnew)
        have hexpels' : s.Expels env.now_millis id := by simpa using hexpels
        exact h.expelled hexpels' ((hpresents id hcall).trans (if_pos hexpels'))
  | issued kept record called survives table id authority counter replied =>
    subst called
    have hadvances := lt_succ_of_ne_zero hp
    -- the identities that were counted are below the one that is issued
    have hbelow : ∀ entry' ∈ kept, entry'.record.id < record.id := by
      intro entry' hentry'
      obtain ⟨entry, hentry, hrecord, -⟩ := survives.fenced entry' hentry'
      rw [← hrecord, id]
      exact UInt64.lt_of_le_of_lt (h.counted entry hentry) hadvances
    constructor
    · intro entry' hentry'
      rw [table] at hentry'
      rcases List.mem_append.mp hentry' with hold | hnew
      · obtain ⟨entry, hentry, hrecord, -⟩ := survives.fenced entry' hold
        rw [← hrecord]
        exact hauthority ((h.issued entry hentry).imp_left fun hin => ⟨Or.inl hin.1, hin.2⟩)
      · rw [List.mem_singleton.mp hnew]
        refine hauthority (Or.inl ⟨Or.inr replied, ?_⟩)
        rw [authority]
        exact ⟨rfl, rfl, rfl, rfl, rfl, rfl⟩
    · rw [table, Ascending, List.map_append, List.pairwise_append]
      refine ⟨survives.ascending h.ascending, by simp, fun key hkey key' hkey' => ?_⟩
      obtain ⟨entry', hentry', rfl⟩ := List.mem_map.mp hkey
      rw [List.map_singleton, List.mem_singleton] at hkey'
      rw [hkey']
      exact UInt64.lt_iff_toNat_lt.mp (hbelow entry' hentry')
    · intro entry' hentry'
      rw [table] at hentry'
      rw [counter, ← id]
      rcases List.mem_append.mp hentry' with hold | hnew
      · exact UInt64.le_of_lt (hbelow entry' hold)
      · rw [List.mem_singleton.mp hnew]
        exact UInt64.le_refl _
    · intro refused hid
      have hnone : s.expelled env .authorize = none := rfl
      rw [hrefused, hnone, Option.toList_none, List.append_nil] at hid
      obtain ⟨hle, hfenced⟩ := h.refused refused hid
      rw [counter]
      refine ⟨UInt64.le_trans hle (UInt64.le_of_lt hadvances), fun entry' hentry' hid' => ?_⟩
      rw [table] at hentry'
      rcases List.mem_append.mp hentry' with hold | hnew
      · obtain ⟨entry, hentry, hrecord, hkeeps⟩ := survives.fenced entry' hold
        exact hkeeps (hfenced entry hentry (by rw [hrecord, hid']))
      · -- the identity that is issued is above all that were refused
        rw [List.mem_singleton.mp hnew, id] at hid'
        rw [← hid'] at hle
        exact absurd hadvances (UInt64.not_lt.mpr hle)

/-! ## Runs -/

/-- A call that gets past validation presents an identity that was issued in this incarnation, for
the inputs that are still in force and with a lease that is not over, and that was never refused
because its authorization was outdated or expired. -/
def BindsInputs (p : System × Ledger) (event : Event) : Prop :=
  OnCall (fun s env call => ∀ id ∈ call.presents, s.Validates env call id →
    (∃ record ∈ p.2.issued, record.id = id ∧ env.now_millis < record.expires_at_millis) ∧
      id ∉ p.2.refused) p.1 event

/-- The table of the live runtime agrees with the ledger. -/
def LedgerKept (p : System × Ledger) : Prop := ∀ s ∈ p.1.runtime, TableKept s p.2

/-- A step keeps the table in agreement with the ledger. -/
theorem LedgerKept.next {sys : System} {ledger : Ledger} (h : LedgerKept (sys, ledger))
    {event : Event} (hp : OnCall CountersAdvance sys event) :
    LedgerKept (Runs.observe System.next noteLedger (sys, ledger) event) := by
  intro s' hs'
  simp only [Runs.observe] at hs' ⊢
  cases event with
  | open_ config env boot =>
    cases hrun : sys.runtime with
    | some s =>
      rw [next_open_live hrun] at hs'
      simpa [noteLedger, hrun] using h s' hs'
    | none =>
      rw [next_open hrun] at hs'
      obtain ⟨s₀, -, -, hstarted, -⟩ := openRuntime_ok (Prod.ext (mem_toOption.mp hs') rfl)
      have hempty : s'.authorizations = [] := hstarted.same.authorizations
      have hledger : noteLedger sys (.open_ config env boot) ledger = {} := by
        simp [noteLedger, hrun]
      rw [hledger]
      constructor <;> simp [hempty, Ascending]
  | call env call =>
    cases hrun : sys.runtime with
    | none =>
      rw [next_call_closed hrun, hrun] at hs'
      exact absurd hs' (by simp)
    | some s =>
      rw [next_call hrun] at hs'
      obtain rfl := Option.some.inj hs'
      exact (h s hrun).call hrun (hp s hrun)
  | crash torn_bytes => exact absurd hs' (by simp [next_crash])

/-- Where the table agrees with the ledger, what gets past validation is bound to its inputs. -/
theorem LedgerKept.binds {sys : System} {ledger : Ledger} (h : LedgerKept (sys, ledger))
    (event : Event) : BindsInputs (sys, ledger) event := by
  cases event with
  | open_ config env boot => trivial
  | crash torn_bytes => trivial
  | call env call =>
    intro s hs id _ hvalidates
    obtain ⟨-, entry, hfind, hunfenced, hagrees, hlease, -⟩ := validates_iff.mp hvalidates
    have hentry : entry ∈ s.authorizations := List.mem_of_find?_eq_some hfind
    have hid : entry.record.id = id := by simpa using List.find?_some hfind
    constructor
    · rcases (h s hs).issued entry hentry with ⟨hissued, -⟩ | holder
      · exact ⟨entry.record, hissued, hid, hlease⟩
      · exact absurd hagrees holder.not_agrees
    · intro hrefused
      have hfenced := ((h s hs).refused id hrefused).2 entry hentry hid
      exact absurd hfenced (by simp [hunfenced])

instance CountersAdvance.instDecidable (s : RuntimeState) (env : Env) :
    (call : Call) → Decidable (CountersAdvance s env call)
  | .authorize => inferInstanceAs (Decidable (s.authorization_counter + 1 ≠ 0))
  | .recordDetection observation =>
    have h : Decidable (∀ merged ∈ (s.evidence.merged observation).toOption,
      merged.digest ≠ s.evidence.digest → s.evidence_revision + 1 ≠ 0) :=
      Option.decidableForallMem _
    h
  | .applyTopology _ | .applyPolicy _ | .plan _ | .transition _ | .submitApply _ _ _
  | .acknowledge _ | .verifyEffect _ | .checkpoint => inferInstanceAs (Decidable True)

/-- In a run whose counters do not wrap around, what gets past validation is bound to its inputs. -/
theorem authorizations_bind_inputs {events : List Event}
    (h : Runs.Along System.next (OnCall CountersAdvance) {} events) :
    Runs.Along (Runs.observe System.next noteLedger) BindsInputs ({}, {}) events := by
  refine Runs.Along.of_invariant (I := LedgerKept) ?_ ?_ (h.observe noteLedger {})
  · rintro ⟨sys, ledger⟩ event hkept hp
    exact ⟨hkept.next hp, hkept.binds event⟩
  · exact fun s hs => absurd hs (by simp)

/-- An authorization is used, outlived by a detection and refused, and another is issued. -/
theorem authorizations_bind_inputs_detected :
    Runs.Along (Runs.observe System.next noteLedger) BindsInputs ({}, {})
      (Sample.planned ++ [Sample.detects 2 .absent, Sample.does (.plan 1), Sample.does .authorize,
        Sample.does (.plan 1), Sample.does (.plan 2)]) :=
  authorizations_bind_inputs (by decide +kernel)

/-! ## A counter that wraps around -/

namespace Sample

/-- Issue an authorization at a time. -/
def authorizes (now : ℕ) : Event := .call { env with now_millis := UInt64.ofNat now } .authorize

/-- Use the first authorization at a time. -/
def plans (now : ℕ) : Event := .call { env with now_millis := UInt64.ofNat now } (.plan 1)

/-- The first authorization is issued with a lease of a millisecond, and refused when it has
expired. -/
def expired : List Event :=
  [.open_ { persist := false, authorization_lease_millis := 1 } env (boot 1), authorizes 0, plans 1]

/-- Two authorizations are issued each millisecond. -/
def ticks (n : ℕ) : List Event :=
  (List.range n).flatMap fun j => [authorizes (j + 1), authorizes (j + 1)]

theorem ticks_succ (n : ℕ) : ticks (n + 1) = ticks n ++ [authorizes (n + 1), authorizes (n + 1)] := by
  simp [ticks, List.range_succ]

end Sample

/-- A state of the run after a number of milliseconds: everything expires with the next one. -/
structure Ticked (n : ℕ) (s : RuntimeState) : Prop where
  room : 1 < s.config.max_active_authorizations
  lease : s.config.authorization_lease_millis = 1
  counter : s.authorization_counter = UInt64.ofNat (2 * n + 1)
  expires : ∀ entry ∈ s.authorizations, entry.record.expires_at_millis ≤ UInt64.ofNat (n + 1)

/-- An authorization that is issued in the present state. -/
def RuntimeState.issues (s : RuntimeState) (id : AuthorizationId) (now : UInt64) :
    ActiveAuthorization :=
  { record := ⟨id, s.currentAuthority, s.sequence, now, now + 1, true⟩ }

/-- Issuing when everything has expired leaves the new authorization alone in the table. -/
theorem exec_authorize_expired {env : Env} {s : RuntimeState}
    (hlease : s.config.authorization_lease_millis = 1)
    (hroom : 0 < s.config.max_active_authorizations)
    (hexpired : ∀ entry ∈ s.authorizations, entry.record.expires_at_millis ≤ env.now_millis) :
    (exec (perform env .authorize) s).2 = { s with
      authorization_counter := s.authorization_counter + 1
      authorizations := [s.issues (s.authorization_counter + 1) env.now_millis] } := by
  have hdropped : s.dropExpired env.now_millis = { s with authorizations := [] } := by
    unfold dropExpired
    rw [List.dropWhile_eq_nil_iff.mpr fun entry hentry => by simpa using hexpired entry hentry]
  simp only [perform, exec_map, authorize, exec_bind, exec_modify, exec_get, exec_lift, hdropped]
  rw [require, if_pos (by simpa using hroom)]
  simp [authorizationRecord, publishAuthorization, issues, currentAuthority, hlease]

/-- Issuing a second one at the same time leaves both. -/
theorem exec_authorize_again {env : Env} {s : RuntimeState} {entry : ActiveAuthorization}
    (hlease : s.config.authorization_lease_millis = 1)
    (hroom : 1 < s.config.max_active_authorizations) (hentry : s.authorizations = [entry])
    (hlive : env.now_millis < entry.record.expires_at_millis) :
    (exec (perform env .authorize) s).2 = { s with
      authorization_counter := s.authorization_counter + 1
      authorizations := [entry, s.issues (s.authorization_counter + 1) env.now_millis] } := by
  have hdropped : s.dropExpired env.now_millis = s := by
    unfold dropExpired
    rw [hentry, List.dropWhile_cons_of_neg (by simpa using hlive), ← hentry]
  simp only [perform, exec_map, authorize, exec_bind, exec_modify, exec_get, exec_lift, hdropped]
  rw [require, if_pos (by simpa [hentry] using hroom)]
  simp [authorizationRecord, publishAuthorization, issues, currentAuthority, hlease, hentry]

/-- Issuing two at once when everything has expired. -/
theorem exec_authorize_twice {env : Env} {s : RuntimeState}
    (hlease : s.config.authorization_lease_millis = 1)
    (hroom : 1 < s.config.max_active_authorizations)
    (hexpired : ∀ entry ∈ s.authorizations, entry.record.expires_at_millis ≤ env.now_millis)
    (hlive : env.now_millis < env.now_millis + 1) :
    (exec (perform env .authorize) (exec (perform env .authorize) s).2).2 = { s with
      authorization_counter := s.authorization_counter + 1 + 1
      authorizations := [s.issues (s.authorization_counter + 1) env.now_millis,
        s.issues (s.authorization_counter + 1 + 1) env.now_millis] } := by
  rw [exec_authorize_expired hlease (by omega) hexpired]
  exact exec_authorize_again hlease hroom rfl hlive

/-- The clock does not wrap around. -/
theorem lt_succ_ofNat {n : ℕ} (h : n < 2 ^ 63) :
    UInt64.ofNat (n + 1) < UInt64.ofNat (n + 1) + 1 := by
  rw [UInt64.lt_iff_toNat_lt, UInt64.toNat_add, UInt64.toNat_ofNat']
  simp only [UInt64.toNat_one]
  omega

/-- After two authorizations everything expires with the next millisecond again. -/
theorem Ticked.next {n : ℕ} {s : RuntimeState} (h : Ticked n s) (hn : n < 2 ^ 63) {env : Env}
    (hnow : env.now_millis = UInt64.ofNat (n + 1)) :
    Ticked (n + 1) (exec (perform env .authorize) (exec (perform env .authorize) s).2).2 := by
  have hlive := lt_succ_ofNat hn
  rw [← hnow] at hlive
  rw [exec_authorize_twice h.lease h.room (hnow ▸ h.expires) hlive]
  have hexpires : UInt64.ofNat (n + 1) + 1 = UInt64.ofNat (n + 1 + 1) := by
    rw [← UInt64.ofNat_one, ← UInt64.ofNat_add]
  refine ⟨h.room, h.lease, ?_, fun entry hentry => ?_⟩
  · simp only [h.counter, ← UInt64.ofNat_one, ← UInt64.ofNat_add]
    rfl
  · simp only [List.mem_cons, List.not_mem_nil, or_false] at hentry
    rcases hentry with rfl | rfl
    · exact UInt64.le_of_eq (hnow ▸ hexpires)
    · exact UInt64.le_of_eq (hnow ▸ hexpires)

/-- The first authorization was refused, and the live runtime is in a given state. -/
def RefusedIn (P : RuntimeState → Prop) (p : System × Ledger) : Prop :=
  (∃ s, p.1.runtime = some s ∧ P s) ∧ 1 ∈ p.2.refused

/-- Two authorizations, on the system and its ledger. -/
theorem RefusedIn.authorizes {P Q : RuntimeState → Prop} {p : System × Ledger} (h : RefusedIn P p)
    (n : ℕ) (hstep : ∀ s env, P s → env.now_millis = UInt64.ofNat n →
      Q (exec (perform env .authorize) (exec (perform env .authorize) s).2).2) :
    RefusedIn Q (Runs.exec (Runs.observe System.next noteLedger) p
      [Sample.authorizes n, Sample.authorizes n]) := by
  obtain ⟨⟨s, hrun, hs⟩, hrefused⟩ := h
  obtain ⟨sys, ledger⟩ := p
  simp only [Runs.exec_cons, Runs.exec_nil, Runs.observe, Sample.authorizes]
  have hfirst := next_call hrun { Sample.env with now_millis := UInt64.ofNat n } .authorize
  refine ⟨⟨_, by rw [next_call (by rw [hfirst])], hstep s _ hs rfl⟩, ?_⟩
  exact List.mem_append_left _ (List.mem_append_left _ hrefused)

/-- The first authorization was refused when it had expired. -/
theorem refusedIn_expired : RefusedIn (Ticked 0)
    (Runs.exec (Runs.observe System.next noteLedger) ({}, {}) Sample.expired) := by
  generalize hp : Runs.exec (Runs.observe System.next noteLedger) ({}, {}) Sample.expired = p
  have hlive : (p.1.runtime.any fun s => decide (1 < s.config.max_active_authorizations ∧
      s.config.authorization_lease_millis = 1 ∧ s.authorization_counter = 1 ∧
      ∀ entry ∈ s.authorizations, entry.record.expires_at_millis ≤ 1)) ∧ 1 ∈ p.2.refused := by
    rw [← hp]
    decide +kernel
  obtain ⟨hlive, hrefused⟩ := hlive
  obtain ⟨s, hrun, hs⟩ := Option.any_eq_true _ _ |>.mp hlive
  obtain ⟨hroom, hlease, hcounter, hexpires⟩ := of_decide_eq_true hs
  exact ⟨⟨s, hrun, hroom, hlease, hcounter, hexpires⟩, hrefused⟩

/-- The state after a number of milliseconds. -/
theorem refusedIn_ticks {n : ℕ} (hn : n ≤ 2 ^ 63) :
    RefusedIn (Ticked n) (Runs.exec (Runs.observe System.next noteLedger)
      (Runs.exec (Runs.observe System.next noteLedger) ({}, {}) Sample.expired)
        (Sample.ticks n)) := by
  induction n with
  | zero => exact refusedIn_expired
  | succ n ih =>
    rw [Sample.ticks_succ, Runs.exec_append]
    exact (ih (by omega)).authorizes (n + 1) fun s env hs hnow => hs.next (by omega) hnow

/-- With the last millisecond the counter wraps around, and the first identity is issued again. -/
theorem Ticked.reissues {n : ℕ} {s : RuntimeState} (h : Ticked n s) (hn : n < 2 ^ 63)
    (hwraps : UInt64.ofNat (2 * n + 1) + 1 = 0) {env : Env}
    (hnow : env.now_millis = UInt64.ofNat (n + 1)) :
    (exec (perform env .authorize) (exec (perform env .authorize) s).2).2.Validates env (.plan 1)
      1 := by
  have hlive := lt_succ_ofNat hn
  rw [← hnow] at hlive
  rw [exec_authorize_twice h.lease h.room (hnow ▸ h.expires) hlive, h.counter, hwraps]
  refine validates_iff.mpr ⟨by decide, s.issues 1 env.now_millis, rfl, rfl, ?_, hlive, nofun⟩
  exact ⟨rfl, rfl, rfl, rfl, rfl, rfl⟩

/-- After `2 ^ 64` authorizations the first identity is issued again, although it was refused. -/
theorem refused_identity_reissued :
    ¬ ∀ events, Runs.Along (Runs.observe System.next noteLedger) BindsInputs ({}, {}) events := by
  intro h
  obtain ⟨n, hn⟩ : ∃ n, n + 1 = 2 ^ 63 := ⟨2 ^ 63 - 1, by norm_num⟩
  have hwraps : UInt64.ofNat (2 * n + 1) + 1 = 0 := by
    rw [← UInt64.ofNat_one, ← UInt64.ofNat_add, show 2 * n + 1 + 1 = 2 ^ 64 by omega]
    decide
  obtain ⟨hbinds, -⟩ := (h (Sample.expired ++ (Sample.ticks (n + 1) ++
    [Sample.plans (n + 1)]))).append_right.append_right
  rw [Sample.ticks_succ, Runs.exec_append] at hbinds
  have hticked : RefusedIn (Ticked n) _ := refusedIn_ticks (by omega)
  obtain ⟨⟨s, hrun, hvalidates⟩, hrefused⟩ := hticked.authorizes
    (Q := fun s => s.Validates { Sample.env with now_millis := UInt64.ofNat (n + 1) } (.plan 1) 1)
    (n + 1) fun s env hs hnow => by
      have hreissues := hs.reissues (by omega) hwraps hnow
      rw [validates_iff] at hreissues ⊢
      rwa [hnow] at hreissues
  exact (hbinds s hrun 1 rfl hvalidates).2 hrefused

end Fcfn
