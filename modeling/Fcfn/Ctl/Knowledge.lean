import Fcfn.Ctl.Scenario
import Fcfn.Net.Responses

/-!
# What a scenario's client says

A client learns from the answers to its calls, and from nothing else: an authorization, a plan and an
attempt, and how many reports it has made on the attempt (`learn`). What it asks for names only what
it has learned (`Asks`). A command makes its calls in this way and prints one step (`Ran`), so a
whole scenario does, against any peer (`scenario_asks`). -/

namespace Fcfn.Scenario

open Words Net ConfigText

/-! ## What is learned -/

/-- What a client knows of the coordinator. -/
structure Known where
  authorization : AuthorizationId := 0
  plan : Option ContainmentPlan := none
  attempt : Option AttemptSequence := none
  /-- The reports on the attempt. -/
  reports : Sequence := 0

/-- What a successful answer teaches. -/
def learnAnswer (known : Known) (operation : Operation) (response : ResponsePayload) : Known :=
  match operation with
  | .authorize =>
    match jsonFieldU64 (responseJson response) (bytesOf "authorization_id") with
    | none => known
    | some authorization => { known with authorization }
  | .plan =>
    match ContainmentPlan.decode response.result with
    | .error _ => known
    | .ok plan => { known with plan }
  | .submitApply =>
    match jsonFieldU64 (responseJson response) (bytesOf "attempt_sequence") with
    | none => known
    | some sequence => { known with attempt := sequence, reports := 0 }
  | _ => known

/-- A report is counted when it is made, whatever comes of it. -/
def countsReport (operation : Operation) : Bool :=
  operation == .acknowledge || operation == .verifyEffect

/-- What a call teaches. -/
def learn (known : Known) (call : Exchanged) : Known :=
  let known := if countsReport call.operation then { known with reports := known.reports + 1 }
    else known
  match call.outcome with
  | .error _ => known
  | .ok response => if response.code = .ok then learnAnswer known call.operation response else known

/-- What a session knows. -/
def Session.known (session : Session) : Known where
  authorization := session.authorization
  plan := if session.have_plan then some session.plan else none
  attempt := if session.have_attempt then some session.attempt else none
  reports := session.applier_sequence

/-! ## What is asked -/

/-- The report on the attempt that a client knows of. -/
structure Reports (session : Session) (known : Known) (id : ApplyAttemptId)
    (expected_epoch : CoordinatorEpoch) (expected_boot : BootIdentity)
    (applier_epoch : ApplierEpoch) (applier_boot : BootIdentity) (applier_sequence : Sequence)
    (observed_boundary_digest : Digest) : Prop where
  attempt : known.attempt = some id.sequence
  plan : ∃ plan, known.plan = some plan ∧ id.plan = plan.generation ∧
    observed_boundary_digest = plan.boundary.digest
  epoch : expected_epoch = session.epoch
  boot : expected_boot = session.boot
  applier_epoch : applier_epoch = session.applier_epoch
  applier_boot : applier_boot = session.client_boot
  next : applier_sequence = known.reports + 1

/-- What a call may carry, by what is known before it. -/
def Asks (session : Session) (known : Known) (call : Exchanged) : Prop :=
  match call.operation with
  | .plan => call.arguments = encodeAuthorizationReference known.authorization
  | .submitApply => ∃ plan, known.plan = some plan ∧ call.arguments =
      encodeSubmitApplyArguments ⟨known.authorization, plan.generation, plan.digest⟩
  | .transition => ∃ plan, known.plan = some plan ∧ ∃ kind generation released, call.arguments =
      encodeTransitionArguments
        ⟨kind, plan.generation, plan.digest, generation, released, known.authorization⟩
  | .acknowledge => ∃ ack : ApplyAcknowledgement,
      Reports session known ack.id ack.expected_epoch ack.expected_boot ack.applier_epoch
        ack.applier_boot ack.applier_sequence ack.observed_boundary_digest ∧
      call.arguments = encodeAcknowledgementArguments ack
  | .verifyEffect => ∃ report : EffectVerification,
      Reports session known report.id report.expected_epoch report.expected_boot
        report.applier_epoch report.applier_boot report.applier_sequence
        report.observed_boundary_digest ∧
      call.arguments = encodeVerificationArguments report
  | _ => True

/-- Calls that each ask by what is known before them. -/
def AsksAll (session : Session) : Known → List Exchanged → Prop
  | _, [] => True
  | known, call :: rest => Asks session known call ∧ AsksAll session (learn known call) rest

/-! ## What is shown -/

/-- The documents that are shown after some calls. -/
inductive Shown (calls : List Exchanged) : Bytes → Prop
  | status (code : StatusCode) (message : Bytes) : Shown calls (statusJson code message)
  | message (message : String) : Shown calls (messageJson message)
  | answer {operation : Operation} {arguments : Bytes} {response : ResponsePayload}
      (h : ⟨operation, arguments, .ok response⟩ ∈ calls) : Shown calls (responseJson response)
  | expectation (expected observed : Bytes) (matched : Bool) :
      Shown calls (Json.object [("expected", Json.text expected), ("observed", Json.text observed),
        ("matched", Json.flag matched)])

/-! ## What a command does -/

/-- What no command but an expectation changes. -/
structure Session.SameFixed (session session' : Session) : Prop where
  epoch : session'.epoch = session.epoch
  boot : session'.boot = session.boot
  client_boot : session'.client_boot = session.client_boot
  applier_epoch : session'.applier_epoch = session.applier_epoch

/-- A call that the peer answered so, in some state. -/
def Peer.Answered {α : Type} (peer : Peer α) (call : Exchanged) : Prop :=
  ∃ a, (peer.call a call.operation call.arguments).1 = call.outcome

/-- An attempt is one of a plan. -/
def Session.Sound (session : Session) : Prop :=
  session.have_attempt = true → session.have_plan = true

/-- A client has made calls and printed a step. -/
structure Ran {α : Type} (peer : Peer α) (r r' : Running α) : Prop where
  fixed : r.session.SameFixed r'.session
  sound : r'.session.Sound
  expectation_failed : r'.session.expectation_failed = r.session.expectation_failed
  spoke : ∃ calls, r'.trace = r.trace ++ calls ∧ (∀ call ∈ calls, peer.Answered call) ∧
    AsksAll r.session r.session.known calls ∧
    r'.session.known = calls.foldl learn r.session.known ∧
    ∃ step, r'.printed = r.printed ++ [step] ∧ Shown calls step.json

/-- A client has made calls and learned from them. -/
structure Called {α : Type} (peer : Peer α) (r r' : Running α) (calls : List Exchanged) : Prop where
  trace : r'.trace = r.trace ++ calls
  answered : ∀ call ∈ calls, peer.Answered call
  asks : AsksAll r.session r.session.known calls
  known : r'.session.known = calls.foldl learn r.session.known
  fixed : r.session.SameFixed r'.session
  sound : r'.session.Sound
  expectation_failed : r'.session.expectation_failed = r.session.expectation_failed
  printed : r'.printed = r.printed

theorem asksAll_append (session : Session) (known : Known) (first rest : List Exchanged) :
    AsksAll session known (first ++ rest) ↔
      AsksAll session known first ∧ AsksAll session (first.foldl learn known) rest := by
  induction first generalizing known with
  | nil => simp [AsksAll]
  | cons call first ih => simp [AsksAll, ih, and_assoc]

/-- What may be asked depends on what stays. -/
theorem Asks.of_fixed {session session' : Session} (h : session.SameFixed session') {known : Known}
    {call : Exchanged} (hasks : Asks session' known call) : Asks session known call := by
  have hreports : ∀ {id epoch boot applier_epoch applier_boot sequence digest},
      Reports session' known id epoch boot applier_epoch applier_boot sequence digest →
        Reports session known id epoch boot applier_epoch applier_boot sequence digest :=
    fun hr => ⟨hr.attempt, hr.plan, hr.epoch.trans h.epoch, hr.boot.trans h.boot,
      hr.applier_epoch.trans h.applier_epoch, hr.applier_boot.trans h.client_boot, hr.next⟩
  obtain ⟨operation, arguments, outcome⟩ := call
  cases operation with
  | acknowledge =>
    obtain ⟨ack, hack, hargs⟩ := hasks
    exact ⟨ack, hreports hack, hargs⟩
  | verifyEffect =>
    obtain ⟨report, hreport, hargs⟩ := hasks
    exact ⟨report, hreports hreport, hargs⟩
  | _ => exact hasks

theorem asksAll_of_fixed {session session' : Session} (h : session.SameFixed session')
    {known : Known} {calls : List Exchanged} (hasks : AsksAll session' known calls) :
    AsksAll session known calls := by
  induction calls generalizing known with
  | nil => trivial
  | cons call calls ih => exact ⟨.of_fixed h hasks.1, ih hasks.2⟩

section Commands

variable {α : Type} {peer : Peer α} {r r' r'' : Running α} {calls : List Exchanged}
  {operation : Operation} {arguments : Bytes} {outcome : Result ResponsePayload}

theorem Called.refl (h : r.session.Sound) : Called peer r r [] :=
  ⟨by simp, by simp, trivial, rfl, ⟨rfl, rfl, rfl, rfl⟩, h, rfl, rfl⟩

/-- One call more, and what the session becomes by it. -/
theorem Called.learned (h : Called peer r r' calls)
    (hcall : r'.call peer operation arguments = (outcome, r''))
    (hasks : Asks r'.session r'.session.known ⟨operation, arguments, outcome⟩) (session : Session)
    (hfixed : r'.session.SameFixed session) (hsound : session.Sound)
    (hexpectation : session.expectation_failed = r'.session.expectation_failed)
    (hknown : session.known = learn r'.session.known ⟨operation, arguments, outcome⟩) :
    Called peer r { r'' with session } (calls ++ [⟨operation, arguments, outcome⟩]) := by
  unfold Running.call at hcall
  obtain ⟨rfl, rfl⟩ := Prod.mk.inj hcall
  refine ⟨?_, ?_, ?_, ?_, ?_, hsound, hexpectation.trans h.expectation_failed, h.printed⟩
  · rw [← List.append_assoc, ← h.trace]
  · intro call hmem
    rcases List.mem_append.mp hmem with hmem | hmem
    · exact h.answered call hmem
    · obtain rfl := List.mem_singleton.mp hmem
      exact ⟨r'.peer, rfl⟩
  · rw [asksAll_append, ← h.known]
    exact ⟨h.asks, .of_fixed h.fixed hasks, trivial⟩
  · rw [List.foldl_append, ← h.known]
    exact hknown
  · exact ⟨hfixed.epoch.trans h.fixed.epoch, hfixed.boot.trans h.fixed.boot,
      hfixed.client_boot.trans h.fixed.client_boot,
      hfixed.applier_epoch.trans h.fixed.applier_epoch⟩

/-- One call more that teaches nothing. -/
theorem Called.call (h : Called peer r r' calls)
    (hcall : r'.call peer operation arguments = (outcome, r''))
    (hasks : Asks r'.session r'.session.known ⟨operation, arguments, outcome⟩)
    (hlearn : learn r'.session.known ⟨operation, arguments, outcome⟩ = r'.session.known) :
    Called peer r r'' (calls ++ [⟨operation, arguments, outcome⟩]) := by
  have hsession : r''.session = r'.session := by
    unfold Running.call at hcall
    obtain ⟨-, rfl⟩ := Prod.mk.inj hcall
    rfl
  have hlearned := h.learned hcall hasks r''.session
    (by rw [hsession]; exact ⟨rfl, rfl, rfl, rfl⟩) (by rw [hsession]; exact h.sound)
    (by rw [hsession]) (by rw [hsession, hlearn])
  exact hlearned

/-- A step that is printed after calls. -/
theorem Called.emitStep (h : Called peer r r' calls) (verb status : Bytes) {json : Bytes}
    (hshown : Shown calls json) : Ran peer r (r'.emitStep verb status json) := by
  refine ⟨⟨h.fixed.epoch, h.fixed.boot, h.fixed.client_boot, h.fixed.applier_epoch⟩, h.sound,
    h.expectation_failed, calls, h.trace, h.answered, h.asks, h.known, ⟨verb, status, json⟩, ?_, hshown⟩
  show r'.printed ++ _ = _
  rw [h.printed]

theorem Called.failStep (h : Called peer r r' calls) (verb status : Bytes) {json : Bytes}
    (hshown : Shown calls json) : Ran peer r (r'.failStep verb status json) := by
  obtain ⟨hfixed, hsound, hexpectation, hspoke⟩ := h.emitStep verb status hshown
  exact ⟨⟨hfixed.epoch, hfixed.boot, hfixed.client_boot, hfixed.applier_epoch⟩, hsound,
    hexpectation, hspoke⟩

theorem Called.failStatus (h : Called peer r r' calls) (verb : Bytes) (status : Status) :
    Ran peer r (r'.failStatus verb status) :=
  h.failStep verb _ (.status _ _)

theorem Called.refuse (h : Called peer r r' calls) (verb : Bytes) (message : String) :
    Ran peer r (r'.refuse verb message) :=
  h.failStep verb _ (.message message)

/-- A failed answer to the last call. -/
theorem Called.failResponse {response : ResponsePayload}
    (h : Called peer r r' (calls ++ [⟨operation, arguments, .ok response⟩])) (verb : Bytes) :
    Ran peer r (r'.failResponse verb response) :=
  h.failStep verb _ (.answer (List.mem_append_right calls List.mem_cons_self))

/-- An operation whose answer teaches nothing. -/
theorem Called.runOperation (h : Called peer r r' calls) (verb : Bytes) (operation : Operation)
    (arguments : Bytes)
    (hasks : ∀ outcome, Asks r'.session r'.session.known ⟨operation, arguments, outcome⟩)
    (hlearn : ∀ outcome, learn r'.session.known ⟨operation, arguments, outcome⟩ =
      r'.session.known) : Ran peer r (r'.runOperation peer verb operation arguments) := by
  unfold Running.runOperation
  cases hcall : r'.call peer operation arguments with
  | mk outcome r'' =>
    have hcalled := h.call hcall (hasks outcome) (hlearn outcome)
    cases outcome with
    | error status => exact hcalled.failStatus verb status
    | ok response =>
      dsimp only
      split
      · exact hcalled.emitStep verb _ (.answer (List.mem_append_right calls List.mem_cons_self))
      · exact hcalled.failResponse verb

/-- A report on the attempt that a client knows of. -/
theorem ran_report (hsound : r.session.Sound) (verb : Bytes)
    (hcounts : countsReport operation = true)
    (hasks : ∀ outcome, Asks r.session r.session.known ⟨operation, arguments, outcome⟩) :
    Ran peer r (r.countReport.runOperation peer verb operation arguments) := by
  have hteaches : ∀ outcome, learn r.session.known ⟨operation, arguments, outcome⟩ =
      r.countReport.session.known := by
    intro outcome
    unfold learn
    rw [if_pos hcounts]
    cases outcome with
    | error status => rfl
    | ok response =>
      dsimp only
      split
      · cases operation with
        | acknowledge => rfl
        | verifyEffect => rfl
        | _ => exact absurd hcounts (by decide)
      · rfl
  unfold Running.runOperation
  cases hcall : r.countReport.call peer operation arguments with
  | mk outcome r'' =>
    have hplain : r.call peer operation arguments = (outcome, { r'' with session := r.session }) := by
      unfold Running.call at hcall ⊢
      obtain ⟨rfl, rfl⟩ := Prod.mk.inj hcall
      rfl
    have hsession : r''.session = r.countReport.session := by
      unfold Running.call at hcall
      obtain ⟨-, rfl⟩ := Prod.mk.inj hcall
      rfl
    have hcalled := (Called.refl hsound).learned hplain (hasks outcome)
      r''.session (by rw [hsession]; exact ⟨rfl, rfl, rfl, rfl⟩)
      (by rw [hsession]; exact hsound) (by rw [hsession]; rfl) (by rw [hsession, hteaches])
    cases outcome with
    | error status => exact hcalled.failStatus verb status
    | ok response =>
      dsimp only
      split
      · exact hcalled.emitStep verb _ (.answer List.mem_cons_self)
      · have hanswered : Called peer r r'' ([] ++ [⟨operation, arguments, .ok response⟩]) := hcalled
        exact hanswered.failResponse verb

/-! ## The commands -/

/-- An operation of no arguments, or of arguments that nothing was learned for. -/
theorem ran_plain (hsound : r.session.Sound) (verb : Bytes)
    (hasks : ∀ known outcome, Asks r.session known ⟨operation, arguments, outcome⟩)
    (hlearn : ∀ known outcome, learn known ⟨operation, arguments, outcome⟩ = known) :
    Ran peer r (r.runOperation peer verb operation arguments) :=
  (Called.refl hsound).runOperation verb operation arguments (hasks _) (hlearn _)

/-- Operations that teach nothing. -/
theorem learn_of_plain (hplain : operation ∈ [.describe, .applyTopology, .applyPolicy,
    .recordDetection, .transition, .currentBoundary, .attempts, .evidence, .checkpoint, .shutdown])
    (known : Known) (outcome : Result ResponsePayload) :
    learn known ⟨operation, arguments, outcome⟩ = known := by
  have hcounts : countsReport operation = false := by
    revert hplain
    cases operation <;> decide
  unfold learn
  rw [if_neg (by rw [hcounts]; decide)]
  cases outcome with
  | error status => rfl
  | ok response =>
    dsimp only
    split
    · cases operation with
      | authorize => exact absurd hplain (by decide)
      | plan => exact absurd hplain (by decide)
      | submitApply => exact absurd hplain (by decide)
      | _ => rfl
    · rfl

theorem ran_topology (hsound : r.session.Sound) (files : Bytes → Option Bytes)
    (parts : List Bytes) : Ran peer r (r.commandTopology peer files parts) := by
  unfold Running.commandTopology
  split
  · split
    · exact (Called.refl hsound).failStatus _ _
    · exact ran_plain hsound _ (fun _ _ => trivial) (learn_of_plain (by decide))
  · exact (Called.refl hsound).refuse _ _

theorem ran_policy (hsound : r.session.Sound) (files : Bytes → Option Bytes)
    (parts : List Bytes) : Ran peer r (r.commandPolicy peer files parts) := by
  unfold Running.commandPolicy
  split
  · split
    · exact (Called.refl hsound).failStatus _ _
    · exact ran_plain hsound _ (fun _ _ => trivial) (learn_of_plain (by decide))
  · exact (Called.refl hsound).refuse _ _

theorem ran_detect (hsound : r.session.Sound) (parts : List Bytes) :
    Ran peer r (r.commandDetect peer parts) := by
  unfold Running.commandDetect
  split
  · split
    · exact (Called.refl hsound).failStatus _ _
    · split
      · exact (Called.refl hsound).refuse _ _
      · split
        · exact (Called.refl hsound).refuse _ _
        · split
          · exact (Called.refl hsound).refuse _ _
          · exact ran_plain hsound _ (fun _ _ => trivial) (learn_of_plain (by decide))
  · exact (Called.refl hsound).refuse _ _

/-- A call changes nothing that the client knows. -/
theorem call_session (hcall : r.call peer operation arguments = (outcome, r')) :
    r'.session = r.session := by
  unfold Running.call at hcall
  obtain ⟨-, rfl⟩ := Prod.mk.inj hcall
  rfl

/-- A call that failed teaches nothing. -/
theorem learn_error (hcounts : countsReport operation = false) (known : Known) (status : Status) :
    learn known ⟨operation, arguments, .error status⟩ = known := by
  unfold learn
  rw [if_neg (by rw [hcounts]; decide)]

theorem learn_failed (hcounts : countsReport operation = false) (known : Known)
    {response : ResponsePayload} (hcode : response.code ≠ .ok) :
    learn known ⟨operation, arguments, .ok response⟩ = known := by
  unfold learn
  rw [if_neg (by rw [hcounts]; decide)]
  exact if_neg hcode

theorem learn_ok (operation : Operation) (arguments : Bytes)
    (hcounts : countsReport operation = false) (known : Known)
    {response : ResponsePayload} (hcode : response.code = .ok) :
    learn known ⟨operation, arguments, .ok response⟩ = learnAnswer known operation response := by
  unfold learn
  rw [if_neg (by rw [hcounts]; decide)]
  exact if_pos hcode

theorem ran_authorize (hsound : r.session.Sound) : Ran peer r (r.commandAuthorize peer) := by
  unfold Running.commandAuthorize
  cases hcall : r.call peer .authorize [] with
  | mk outcome r' =>
    have hsession := call_session hcall
    cases outcome with
    | error status =>
      exact ((Called.refl hsound).call hcall trivial (learn_error rfl _ status)).failStatus _ _
    | ok response =>
      dsimp only
      split
      · rename_i hcode
        exact Called.failResponse ((Called.refl hsound).call hcall trivial
          (learn_failed rfl _ hcode)) _
      · rename_i hcode
        have hlearn := learn_ok .authorize [] rfl r.session.known
          (not_not.mp hcode)
        unfold learnAnswer at hlearn
        dsimp only at hlearn
        split
        · rename_i hnone
          rw [hnone] at hlearn
          exact ((Called.refl hsound).call hcall trivial hlearn).failStep _ _ (.message _)
        · rename_i identifier hsome
          rw [hsome] at hlearn
          refine ((Called.refl hsound).learned hcall trivial _ ⟨?_, ?_, ?_, ?_⟩ ?_ ?_ ?_).emitStep _ _
            (.answer List.mem_cons_self)
          all_goals rw [hsession]
          · exact hsound
          · exact hlearn.symm

theorem ran_plan (hsound : r.session.Sound) : Ran peer r (r.commandPlan peer) := by
  unfold Running.commandPlan
  cases hcall : r.call peer .plan (encodeAuthorizationReference r.session.authorization) with
  | mk outcome r' =>
    have hsession := call_session hcall
    cases outcome with
    | error status =>
      exact ((Called.refl hsound).call hcall rfl (learn_error rfl _ status)).failStatus _ _
    | ok response =>
      dsimp only
      split
      · rename_i hcode
        exact Called.failResponse ((Called.refl hsound).call hcall rfl
          (learn_failed rfl _ hcode)) _
      · rename_i hcode
        have hlearn := learn_ok .plan (encodeAuthorizationReference r.session.authorization) rfl
          r.session.known (not_not.mp hcode)
        unfold learnAnswer at hlearn
        dsimp only at hlearn
        split
        · rename_i status herror
          rw [herror] at hlearn
          exact ((Called.refl hsound).call hcall rfl hlearn).failStatus _ _
        · rename_i plan hplan
          rw [hplan] at hlearn
          refine ((Called.refl hsound).learned hcall rfl _ ⟨?_, ?_, ?_, ?_⟩ ?_ ?_ ?_).emitStep _ _
            (.answer List.mem_cons_self)
          all_goals rw [hsession]
          · exact fun _ => rfl
          · exact hlearn.symm

theorem ran_transition (hsound : r.session.Sound) (parts : List Bytes) :
    Ran peer r (r.commandTransition peer parts) := by
  unfold Running.commandTransition
  split
  · split
    · exact (Called.refl hsound).refuse _ _
    · rename_i kind _
      split
      · exact (Called.refl hsound).refuse _ _
      · rename_i hplan
        have hplan : r.session.have_plan = true := by simpa using hplan
        cases hboundary : r.call peer .currentBoundary [] with
        | mk boundary r' =>
          have hcalled := (Called.refl hsound).call hboundary trivial
            (learn_of_plain (by decide) _ _)
          have hsession := call_session hboundary
          dsimp only
          cases hcall : r'.call peer .transition (encodeTransitionArguments ⟨kind,
              r'.session.plan.generation, r'.session.plan.digest, (Running.expectedBoundary boundary).1,
              (Running.expectedBoundary boundary).2, r'.session.authorization⟩) with
          | mk outcome r'' =>
            have hknown : r'.session.known.plan = some r'.session.plan := by
              rw [hsession]
              exact if_pos hplan
            have hcalled' := hcalled.call hcall ⟨_, hknown, _, _, _, rfl⟩
              (learn_of_plain (by decide) _ _)
            cases outcome with
            | error status => exact hcalled'.failStatus _ _
            | ok response =>
              exact hcalled'.emitStep _ _
                (.answer (List.mem_append_right _ List.mem_cons_self))
  · exact (Called.refl hsound).refuse _ _

theorem ran_apply (hsound : r.session.Sound) : Ran peer r (r.commandApply peer) := by
  unfold Running.commandApply
  split
  · exact (Called.refl hsound).refuse _ _
  · rename_i hplan
    have hplan : r.session.have_plan = true := by simpa using hplan
    have hknown : r.session.known.plan = some r.session.plan := if_pos hplan
    cases hcall : r.call peer .submitApply (encodeSubmitApplyArguments
        ⟨r.session.authorization, r.session.plan.generation, r.session.plan.digest⟩) with
    | mk outcome r' =>
      have hsession := call_session hcall
      have hasks : ∀ outcome, Asks r.session r.session.known ⟨.submitApply,
          encodeSubmitApplyArguments
            ⟨r.session.authorization, r.session.plan.generation, r.session.plan.digest⟩, outcome⟩ :=
        fun _ => ⟨_, hknown, rfl⟩
      cases outcome with
      | error status =>
        exact ((Called.refl hsound).call hcall (hasks _) (learn_error rfl _ status)).failStatus _ _
      | ok response =>
        dsimp only
        split
        · rename_i hcode
          exact Called.failResponse ((Called.refl hsound).call hcall (hasks _)
            (learn_failed rfl _ hcode)) _
        · rename_i hcode
          have hlearn := learn_ok .submitApply (encodeSubmitApplyArguments
              ⟨r.session.authorization, r.session.plan.generation, r.session.plan.digest⟩)
            rfl r.session.known (not_not.mp hcode)
          unfold learnAnswer at hlearn
          dsimp only at hlearn
          split
          · rename_i hnone
            rw [hnone] at hlearn
            exact ((Called.refl hsound).call hcall (hasks _) hlearn).emitStep _ _
              (.answer List.mem_cons_self)
          · rename_i sequence hsome
            rw [hsome] at hlearn
            refine ((Called.refl hsound).learned hcall (hasks _) _ ⟨?_, ?_, ?_, ?_⟩ ?_ ?_ ?_).emitStep _ _
              (.answer List.mem_cons_self)
            all_goals rw [hsession]
            · exact fun _ => hplan
            · exact hlearn.symm

/-- What a session reports on its attempt. -/
theorem reports_known (hsound : r.session.Sound) (h : r.session.have_attempt = true) :
    Reports r.session r.session.known ⟨r.session.plan.generation, r.session.attempt⟩
      r.session.epoch r.session.boot r.session.applier_epoch r.session.client_boot
      (r.session.applier_sequence + 1) r.session.plan.boundary.digest :=
  ⟨if_pos h, ⟨_, if_pos (hsound h), rfl, rfl⟩, rfl, rfl, rfl, rfl, rfl⟩

theorem ran_ack (hsound : r.session.Sound) (parts : List Bytes) :
    Ran peer r (r.commandAck peer parts) := by
  unfold Running.commandAck
  dsimp only
  split
  · exact (Called.refl hsound).refuse _ _
  · rename_i hattempt
    have hattempt : r.session.have_attempt = true := by simpa using hattempt
    exact ran_report hsound _ rfl fun _ => ⟨_, reports_known hsound hattempt, rfl⟩

theorem ran_verify (hsound : r.session.Sound) (parts : List Bytes) :
    Ran peer r (r.commandVerify peer parts) := by
  unfold Running.commandVerify
  split
  · split
    · exact (Called.refl hsound).refuse _ _
    · rename_i hattempt
      have hattempt : r.session.have_attempt = true := by simpa using hattempt
      split
      · exact (Called.refl hsound).refuse _ _
      · exact ran_report hsound _ rfl fun _ => ⟨_, reports_known hsound hattempt, rfl⟩
  · exact (Called.refl hsound).refuse _ _

/-- What a command expects, if it is an expectation. -/
def expectation (verb : Bytes) (parts : List Bytes) : Option Bytes :=
  if verb = bytesOf "expect" then
    match parts with
    | [_, expected] => some expected
    | _ => none
  else none

/-- A command that is no expectation makes its calls by what is known, learns from them, and prints
one step. -/
theorem ran_command (hsound : r.session.Sound) (files : Bytes → Option Bytes) {verb : Bytes}
    {parts : List Bytes} (hexpectation : expectation verb parts = none) :
    Ran peer r (r.runCommand peer files verb parts) := by
  unfold Running.runCommand
  split
  · rename_i name operation hfind
    have hmem := List.mem_of_find?_eq_some hfind
    have hplain : ∀ entry ∈ Running.plainOperations, entry.2 ∈ [Operation.describe,
        .applyTopology, .applyPolicy, .recordDetection, .transition, .currentBoundary, .attempts,
        .evidence, .checkpoint, .shutdown] := by decide
    have hasks : ∀ entry ∈ Running.plainOperations, ∀ known outcome,
        Asks r.session known ⟨entry.2, [], outcome⟩ := by
      simp [Running.plainOperations, Asks]
    exact ran_plain hsound _ (hasks _ hmem) (learn_of_plain (hplain _ hmem))
  · split_ifs
    · exact ran_topology hsound files parts
    · exact ran_policy hsound files parts
    · exact ran_detect hsound parts
    · exact ran_authorize hsound
    · exact ran_plan hsound
    · exact ran_transition hsound parts
    · exact ran_apply hsound
    · exact ran_ack hsound parts
    · exact ran_verify hsound parts
    · rename_i hexpect
      unfold expectation at hexpectation
      rw [if_pos hexpect] at hexpectation
      unfold Running.commandExpect
      split
      · exact absurd hexpectation (by simp)
      · exact (Called.refl hsound).refuse _ _
    · exact (Called.refl hsound).refuse _ _

/-! ## Runs -/

/-- A client has run lines: its trace and its steps grew, and what it knows it has learned. -/
structure Followed (peer : Peer α) (r r' : Running α) : Prop where
  fixed : r.session.SameFixed r'.session
  sound : r'.session.Sound
  spoke : ∃ calls, r'.trace = r.trace ++ calls ∧ (∀ call ∈ calls, peer.Answered call) ∧
    AsksAll r.session r.session.known calls ∧
    r'.session.known = calls.foldl learn r.session.known ∧
    ∃ steps, r'.printed = r.printed ++ steps ∧ ∀ step ∈ steps, Shown calls step.json

/-- What is shown after calls is shown after more of them. -/
theorem Shown.mono {more : List Exchanged} (h : calls ⊆ more) {json : Bytes}
    (hshown : Shown calls json) : Shown more json := by
  cases hshown with
  | status code message => exact .status code message
  | message message => exact .message message
  | answer hmem => exact .answer (h hmem)
  | expectation expected observed matched => exact .expectation expected observed matched

theorem Followed.refl (h : r.session.Sound) : Followed peer r r :=
  ⟨⟨rfl, rfl, rfl, rfl⟩, h, [], by simp, by simp, trivial, rfl, [], by simp, by simp⟩

/-- What is run after lines. -/
theorem Followed.trans (h : Followed peer r r') (h' : Followed peer r' r'') : Followed peer r r'' := by
  obtain ⟨hfixed, -, calls, htrace, hanswered, hasks, hknown, steps, hprinted, hshown⟩ := h
  obtain ⟨hfixed', hsound, calls', htrace', hanswered', hasks', hknown', steps', hprinted',
    hshown'⟩ := h'
  refine ⟨⟨hfixed'.epoch.trans hfixed.epoch, hfixed'.boot.trans hfixed.boot,
    hfixed'.client_boot.trans hfixed.client_boot,
    hfixed'.applier_epoch.trans hfixed.applier_epoch⟩, hsound, calls ++ calls', ?_, ?_, ?_, ?_,
    steps ++ steps', ?_, ?_⟩
  · rw [htrace', htrace, List.append_assoc]
  · intro call hmem
    rcases List.mem_append.mp hmem with hmem | hmem
    · exact hanswered call hmem
    · exact hanswered' call hmem
  · rw [asksAll_append, ← hknown]
    exact ⟨hasks, asksAll_of_fixed hfixed hasks'⟩
  · rw [hknown', hknown, List.foldl_append]
  · rw [hprinted', hprinted, List.append_assoc]
  · intro step hstep
    rcases List.mem_append.mp hstep with hstep | hstep
    · exact (hshown step hstep).mono (List.subset_append_left _ _)
    · exact (hshown' step hstep).mono (List.subset_append_right _ _)

theorem Ran.followed (h : Ran peer r r') : Followed peer r r' := by
  obtain ⟨hfixed, hsound, -, calls, htrace, hanswered, hasks, hknown, step, hprinted, hshown⟩ := h
  refine ⟨hfixed, hsound, calls, htrace, hanswered, hasks, hknown, [step], hprinted, ?_⟩
  simpa using hshown

/-- An expectation is compared with the status of the step before. -/
theorem runCommand_expectation {files : Bytes → Option Bytes} {verb : Bytes} {parts : List Bytes}
    {expected : Bytes} (h : expectation verb parts = some expected) :
    r.runCommand peer files verb parts = r.commandExpect [verb, expected] := by
  unfold expectation at h
  split at h
  · rename_i hverb
    split at h
    · obtain rfl := Option.some.inj h
      subst hverb
      rfl
    · exact absurd h (by simp)
  · exact absurd h (by simp)

/-- A line is run. -/
theorem followed_line (hsound : r.session.Sound) (files : Bytes → Option Bytes) (line : Bytes) :
    Followed peer r (r.runLine peer files line) := by
  unfold Running.runLine
  split
  · exact .refl hsound
  · rename_i verb arguments _
    cases hexpectation : expectation verb (verb :: arguments) with
    | none => exact (ran_command hsound files hexpectation).followed
    | some expected =>
      rw [runCommand_expectation hexpectation]
      refine ⟨⟨rfl, rfl, rfl, rfl⟩, hsound, [], by simp [Running.commandExpect], by simp, trivial,
        rfl, _, rfl, ?_⟩
      intro step hstep
      obtain rfl := List.mem_singleton.mp hstep
      exact .expectation _ _ _

/-- Lines are run one after the other. -/
theorem followed_lines (peer : Peer α) {r : Running α} (hsound : r.session.Sound) (files : Bytes → Option Bytes)
    (lines : List Bytes) : Followed peer r (lines.foldl (Running.runLine peer files) r) := by
  induction lines generalizing r with
  | nil => exact .refl hsound
  | cons line lines ih =>
    have hline : Followed peer r (r.runLine peer files line) := followed_line hsound files line
    exact hline.trans (ih hline.sound)

end Commands

/-- A client that runs a scenario. -/
def runClient {α : Type} (peer : Peer α) (start : α) (handshake : HelloAckPayload)
    (files : Bytes → Option Bytes) (text : Bytes) : Running α :=
  Running.runScenario peer files ⟨Session.start handshake, start, [], []⟩ text

namespace Sample

/-- An answer that names an authorization. -/
def answer : ResponsePayload :=
  { operation := .authorize, code := .ok,
    json := Json.object [("authorization_id", Json.number 7)] }

end Sample

/-- A peer whose answers are those of a coordinator, in whatever state it is when it answers, and are
read within the bound of a payload. -/
structure Peer.Faithful {α : Type} (peer : Peer α) : Prop where
  answers : ∀ a operation arguments response, (peer.call a operation arguments).1 = .ok response →
    ∃ served, (dispatch operation arguments served).1 = response
  bounded : ∀ a operation arguments response, (peer.call a operation arguments).1 = .ok response →
    response.result.length ≤ kMaxFramePayloadBytes

theorem isDocument_statusJson (code : StatusCode) (message : Bytes) :
    IsDocument (statusJson code message) := by
  refine .of_object (by simp only [List.map_cons, List.map_nil]; decide) ?_
  simp

theorem isDocument_messageJson (message : String) : IsDocument (messageJson message) := by
  refine .of_object (by simp only [List.map_cons, List.map_nil]; decide) ?_
  simp

/-- The answer of a coordinator is shown as a document. -/
theorem isDocument_responseJson {response : ResponsePayload} (h : response.Sound) :
    IsDocument (responseJson response) := by
  unfold responseJson
  rcases h with hnone | hdocument
  · rw [if_neg (not_not.mpr hnone)]
    exact isDocument_statusJson _ _
  · split
    · exact hdocument
    · exact isDocument_statusJson _ _

/-- What is shown after the answers of a coordinator is a document. -/
theorem Shown.isDocument {calls : List Exchanged} {json : Bytes} (h : Shown calls json)
    (hsound : ∀ call ∈ calls, ∀ response, call.outcome = .ok response → response.Sound) :
    IsDocument json := by
  cases h with
  | status code message => exact isDocument_statusJson code message
  | message message => exact isDocument_messageJson message
  | answer hmem => exact isDocument_responseJson (hsound _ hmem _ rfl)
  | expectation expected observed matched =>
    refine .of_object (by simp only [List.map_cons, List.map_nil]; decide) ?_
    simp

/-- Every step that is printed in a scenario against a coordinator shows a document: the text that
the writer writes for a value, and that is read back as the value. -/
theorem scenario_shows_documents {α : Type} (peer : Peer α) (hpeer : peer.Faithful) (start : α)
    (handshake : HelloAckPayload) (files : Bytes → Option Bytes) (text : Bytes) :
    ∀ step ∈ (runClient peer start handshake files text).printed, ∃ v : JsonText.Value, v.Fits ∧
      step.json = ((JsonWriter.new false).calls v.calls).out ∧
        JsonText.read step.json = some v := by
  have hsound : (Session.start handshake).Sound := fun h => absurd h Bool.false_ne_true
  obtain ⟨-, -, calls, -, hanswered, -, -, steps, hprinted, hshown⟩ := @followed_lines α peer
    ⟨Session.start handshake, start, [], []⟩ hsound files (getLines text)
  have hresponses : ∀ call ∈ calls, ∀ response, call.outcome = .ok response → response.Sound := by
    intro call hcall response houtcome
    obtain ⟨a, ha⟩ := hanswered call hcall
    obtain ⟨served, hserved⟩ := hpeer.answers a _ _ response (ha.trans houtcome)
    rw [← hserved]
    exact dispatch_sound _ _ _
  intro step hstep
  have hmem : step ∈ steps := by
    rw [List.nil_append] at hprinted
    rw [← hprinted]
    exact hstep
  obtain ⟨v, hv⟩ := (hshown step hmem).isDocument hresponses
  refine ⟨v, hv.fits, hv.eq_calls, ?_⟩
  rw [hv.eq_calls]
  exact JsonWriter.read_out false (JsonCall.describes_calls hv.fits)

/-- A coordinator that answers one client; a response that does not fit a frame is not received. -/
def servedPeer : Peer Served where
  call served operation arguments :=
    let (response, served) := dispatch operation arguments served
    (if (encodeResponse response).length ≤ kMaxFramePayloadBytes then .ok response
      else fail .protocolViolation (FrameStatus.token .oversized), served)

theorem servedPeer_faithful : servedPeer.Faithful := by
  have hreceived : ∀ served operation arguments response,
      (servedPeer.call served operation arguments).1 = .ok response →
        (dispatch operation arguments served).1 = response ∧
          (encodeResponse response).length ≤ kMaxFramePayloadBytes := by
    intro served operation arguments response h
    simp only [servedPeer] at h
    split at h
    · rename_i hbound
      obtain rfl := Except.ok.inj h
      exact ⟨rfl, hbound⟩
    · exact absurd h (by simp [fail])
  refine ⟨fun served operation arguments response h =>
    ⟨served, (hreceived served operation arguments response h).1⟩,
    fun served operation arguments response h => ?_⟩
  have hbound := (hreceived served operation arguments response h).2
  rw [length_encodeResponse] at hbound
  omega

/-- A scenario that asks for what there is not. -/
theorem scenario_shows_documents_boundary :
    ∃ step ∈ (runClient servedPeer Net.Sample.served {} (fun _ => none)
        (bytesOf "boundary\nexpect not_found\n")).printed, ∃ v : JsonText.Value, v.Fits ∧
      step.json = ((JsonWriter.new false).calls v.calls).out ∧
        JsonText.read step.json = some v := by
  have hprinted : (runClient servedPeer Net.Sample.served {} (fun _ => none)
      (bytesOf "boundary\nexpect not_found\n")).printed ≠ [] := by
    rw [ne_eq, ← List.isEmpty_iff]
    decide +kernel
  obtain ⟨step, hstep⟩ := List.exists_mem_of_ne_nil _ hprinted
  exact ⟨step, hstep, scenario_shows_documents servedPeer servedPeer_faithful Net.Sample.served {}
    (fun _ => none) (bytesOf "boundary\nexpect not_found\n") step hstep⟩

end Fcfn.Scenario
