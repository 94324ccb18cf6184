import Fcfn.Runtime.PlanRecords

/-!
# The boundary decision in force

A decision is a plan and its boundary. Two calls change the decision in force: a transition that is
accepted, and an effect report that has the plan of its attempt adopted (`Outcome.decision`). Both
take the plan from the table of plans, so the boundary in force has the generation of its plan as
long as no plan without a boundary is enacted. `decision_never_regresses` rests on that. -/

namespace Fcfn

open Words Stateful RuntimeState DurableStore Tables

/-! ## Boundaries of plans -/

/-- A boundary that was created for the plan of a generation, with canonical identities. -/
structure BoundaryFor (generation : PlanGeneration) (b : ContainmentBoundary) : Prop where
  generation_eq : b.generation = generation
  created : b.generation ≠ 0
  canonical : ∀ member ∈ b.members, ContainmentBoundary.Canonical member

/-- Such a boundary is decoded from its bytes. -/
theorem BoundaryFor.decode_encode {generation : PlanGeneration} {b : ContainmentBoundary}
    (h : BoundaryFor generation b) : ContainmentBoundary.decode b.encode = .ok b :=
  ContainmentBoundary.decode_encode h.created h.canonical

/-- A plan has no boundary, or one that was created for it. -/
def OwnBoundary (plan : ContainmentPlan) : Prop :=
  plan.boundary.generation = 0 ∨ BoundaryFor plan.generation plan.boundary

/-- The next plan has no boundary, or one of its own. -/
theorem nextPlan_ownBoundary {s : RuntimeState} {t : Topology} {plan : ContainmentPlan}
    (h : s.nextPlan t = .ok plan) : OwnBoundary plan := by
  obtain ⟨horigin, hcreated⟩ := nextPlan_origin h
  obtain ⟨computed, hcompute, hmarked⟩ := nextPlan_ok h
  obtain ⟨way, hsealed, hway⟩ := computePlan_way hcompute
  have hboundary : plan.boundary = way.boundary := by
    rw [hmarked]
    split
    · rw [(markConflicting_origin _).2, hsealed]
      rfl
    · rw [hsealed]
      rfl
  rcases hway.bounded with ⟨hbounded, -⟩ | ⟨hunset, -⟩
  · right
    rw [hboundary] at hcreated ⊢
    rcases hcreated with hunset | ⟨members, hcreate⟩
    · exact absurd (congrArg ContainmentBoundary.generation hunset) hbounded.created
    · obtain ⟨hgeneration, -, -⟩ := ContainmentBoundary.create_eq_ok hcreate
      have hplan : plan.generation = s.plan_counter + 1 := horigin.generation
      exact ⟨hgeneration.trans hplan.symm, hbounded.created, hbounded.members⟩
  · left
    rw [hboundary]
    exact hunset

/-! ## What changes the decision -/

/-- What a transition that was accepted has passed, and the decision it puts in force. -/
structure Enacted (s : RuntimeState) (env : Env) (request : TransitionRequest)
    (plan : ContainmentPlan) (s' : RuntimeState) : Prop where
  admitted : s.Admits env request
  found : s.findPlan request.plan = some plan
  kind : ∃ d, s.checkKind request.kind plan d = .ok ()
  newer : s.boundary_plan < plan.generation ∨ s.boundary_plan = 0
  boundary : s'.boundary = if request.kind = .release then none else some plan.boundary
  boundary_plan : s'.boundary_plan = plan.generation
  boundary_plan_digest : s'.boundary_plan_digest = plan.digest

/-- A transition is accepted with a retained plan, whose boundary it puts in force. -/
theorem Outcome.enacted {env : Env} {s s' : RuntimeState} {request : TransitionRequest}
    {reply : Result Reply} (h : Outcome env s (.transition request) reply s')
    (haccepts : Reply.accepts reply = true) : ∃ plan, Enacted s env request plan s' := by
  cases h with
  | @transitionAccepted _ record plan decision published authorized checked decided =>
    have hpassed := checkTransition_passed _ checked
    refine ⟨plan, ⟨?_, ?_⟩, hpassed.found, hpassed.kind, hpassed.newer, ?_, rfl, rfl⟩
    · rw [authorized]
      rfl
    · rw [checked]
      rfl
    · have hreleased : published.to_released = decide (request.kind = .release) := by
        rw [decided]
        exact hpassed.to_released
      simp only [publishBoundary, evictBoundedTables, hreleased, decide_eq_true_eq]
  | transitionRefused _ _ _ _ denied =>
    exact absurd haccepts (by simpa [Reply.accepts] using denied.1)
  | _ => exact absurd haccepts (by simp [Reply.accepts])

/-- The decision in force is the same. -/
structure SameDecision (s s' : RuntimeState) : Prop where
  boundary : s'.boundary = s.boundary
  boundary_plan : s'.boundary_plan = s.boundary_plan
  boundary_plan_digest : s'.boundary_plan_digest = s.boundary_plan_digest

/-- A report that confirms an attempt has its plan adopted. -/
structure Adopted (s : RuntimeState) (report : EffectVerification) (attempt : ApplyAttempt)
    (plan : ContainmentPlan) (s' : RuntimeState) : Prop where
  checked : s.checkVerification report = .ok attempt
  confirms : report.Confirms attempt
  adoptable : s.Adoptable attempt
  found : s.findPlan attempt.id.plan = some plan
  members : ∃ boundary, s.boundary = some boundary ∧ plan.boundary.sameMembers boundary = true
  boundary : s'.boundary = some plan.boundary
  boundary_plan : s'.boundary_plan = plan.generation
  boundary_plan_digest : s'.boundary_plan_digest = plan.digest

/-- What a call does to the decision in force. -/
inductive DecisionAfter (env : Env) (s : RuntimeState) :
    Call → Result Reply → RuntimeState → Prop
  | same {call : Call} {reply : Result Reply} {s' : RuntimeState} (same : SameDecision s s') :
    DecisionAfter env s call reply s'
  | enacted {request : TransitionRequest} {reply : Result Reply} {s' : RuntimeState}
      {plan : ContainmentPlan} (accepts : Reply.accepts reply = true)
      (enacted : Enacted s env request plan s') : DecisionAfter env s (.transition request) reply s'
  | adopted {report : EffectVerification} {reply : Result Reply} {s' : RuntimeState}
      {attempt : ApplyAttempt} {plan : ContainmentPlan}
      (adopted : Adopted s report attempt plan s') :
    DecisionAfter env s (.verifyEffect report) reply s'

/-- A call keeps the decision in force, enacts a plan or adopts one. -/
theorem Outcome.decision {env : Env} {s s' : RuntimeState} {call : Call} {reply : Result Reply}
    (h : Outcome env s call reply s') : DecisionAfter env s call reply s' := by
  have ho := h
  cases h with
  | transitionAccepted published _ checked decided =>
    have hstatus : published.status = .accepted := by
      rw [decided]
      exact (checkTransition_passed _ checked).accepted
    have haccepts : Reply.accepts (.ok (.transition published)) = true := by
      simp [Reply.accepts, hstatus]
    obtain ⟨plan, henacted⟩ := ho.enacted haccepts
    exact .enacted haccepts henacted
  | @verified report attempt checked =>
    generalize hX : (s.setAttempt report.id (attempt.observed report env.now_millis)).committed
      .effectVerification (encodeAttempt (attempt.observed report env.now_millis)) = X
    have hfind : X.findPlan attempt.id.plan = s.findPlan attempt.id.plan := by rw [← hX]; rfl
    have hboundary : X.boundary = s.boundary := by rw [← hX]; rfl
    have hsame : SameDecision s X := by rw [← hX]; exact ⟨rfl, rfl, rfl⟩
    have hverified := isVerified_observed attempt report env.now_millis
    by_cases hconfirms : report.Confirms attempt
    · rw [decide_eq_true hconfirms] at hverified
      rcases adoptVerified_of_verified (s := X) hverified with
        ⟨-, heq⟩ | ⟨plan, boundary, hplan, hcurrent, hmembers, heq⟩
      · rw [heq]
        exact .same ⟨hsame.boundary, hsame.boundary_plan, hsame.boundary_plan_digest⟩
      · have hplan' : s.findPlan attempt.id.plan = some plan := hfind ▸ hplan
        have hcurrent' : s.boundary = some boundary := hboundary ▸ hcurrent
        rw [heq]
        exact .adopted ⟨checked, hconfirms, ⟨plan, hplan', by simp [hcurrent', hmembers]⟩, hplan',
          ⟨boundary, hcurrent', hmembers⟩, rfl, rfl, rfl⟩
    · rw [decide_eq_false hconfirms] at hverified
      rw [adoptVerified_of_not hverified]
      exact .same ⟨hsame.boundary, hsame.boundary_plan, hsame.boundary_plan_digest⟩
  | transitionFailed _ _ counted => rcases counted with rfl | rfl <;> exact .same ⟨rfl, rfl, rfl⟩
  | transitionRefused _ _ _ counted => rcases counted with rfl | rfl <;> exact .same ⟨rfl, rfl, rfl⟩
  | ackMismatched _ _ _ taken => rcases taken with rfl | ⟨-, rfl⟩ <;> exact .same ⟨rfl, rfl, rfl⟩
  | _ => exact .same ⟨rfl, rfl, rfl⟩

/-! ## Decisions of plans with a boundary -/

/-- A transition that would put a boundary in force names a plan that has one, and so does the attempt
of a report that would have its plan adopted. -/
def EnactsCreated (s : RuntimeState) (env : Env) : Call → Prop
  | .transition request => request.kind ≠ .release → s.Admits env request →
    ∀ plan ∈ s.findPlan request.plan, plan.boundary.generation ≠ 0
  | .verifyEffect report => ∀ attempt ∈ (s.checkVerification report).toOption,
    report.Confirms attempt → s.Adoptable attempt →
      ∀ plan ∈ s.findPlan attempt.id.plan, plan.boundary.generation ≠ 0
  | _ => True

/-- The boundary in force was created for the plan in force. -/
def OwnDecision (s : RuntimeState) : Prop :=
  ∀ boundary ∈ s.boundary, BoundaryFor s.boundary_plan boundary

/-- A call that meets the condition keeps the boundary in force that of the plan in force. -/
theorem Outcome.ownDecision {env : Env} {s s' : RuntimeState} {call : Call} {reply : Result Reply}
    (ho : Outcome env s call reply s') (hp : EnactsCreated s env call)
    (hplans : ∀ plan ∈ s.plans, OwnBoundary plan) (h : OwnDecision s) : OwnDecision s' := by
  intro boundary hboundary
  cases ho.decision with
  | same same =>
    rw [same.boundary] at hboundary
    rw [same.boundary_plan]
    exact h boundary hboundary
  | @enacted request _ _ plan _ enacted =>
    rw [enacted.boundary] at hboundary
    rw [enacted.boundary_plan]
    split at hboundary
    · exact absurd hboundary (by simp)
    · rename_i hkind
      obtain rfl := Option.some.inj hboundary
      have hcreated := hp hkind enacted.admitted plan enacted.found
      exact (hplans plan (findPlan_generation enacted.found).2).resolve_left hcreated
  | @adopted report _ _ attempt plan adopted =>
    rw [adopted.boundary] at hboundary
    rw [adopted.boundary_plan]
    obtain rfl := Option.some.inj hboundary
    have hcreated := hp attempt (mem_toOption.mpr adopted.checked) adopted.confirms
      adopted.adoptable plan adopted.found
    exact (hplans plan (findPlan_generation adopted.found).2).resolve_left hcreated

/-- The plans of the live runtime and of its store have no boundary or their own, and the boundary
in force is that of the plan in force. -/
def decisions : Contents where
  live s := (∀ plan ∈ s.plans, OwnBoundary plan) ∧ OwnDecision s
  record type payload :=
    (type = .planDecision → ∃ plan, payload = plan.encode ∧
      payload.length ≤ kMaxRecordPayloadBytes ∧ OwnBoundary plan) ∧
    (type = .boundaryDecision → ∃ decision, payload = encodeBoundaryDecision decision ∧
      payload.length ≤ kMaxRecordPayloadBytes ∧ (decision.released = false →
        ∃ boundary, decision.boundary_bytes = boundary.encode ∧ BoundaryFor decision.plan boundary))
  saved state := (∀ plan ∈ state.plans, OwnBoundary plan) ∧
    ∃ boundary : Option ContainmentBoundary,
      state.boundary_bytes = (boundary.map ContainmentBoundary.encode).getD [] ∧
        ∀ b ∈ boundary, BoundaryFor state.boundary_plan b

/-- The boundary of a snapshot is decoded as it was saved. -/
theorem decodePart_boundary {generation : PlanGeneration} {boundary boundary' : Option ContainmentBoundary}
    (h : ∀ b ∈ boundary, BoundaryFor generation b)
    (hdecoded : decodePart ContainmentBoundary.decode
      ((boundary.map ContainmentBoundary.encode).getD []) = .ok boundary') :
    boundary' = boundary := by
  unfold decodePart at hdecoded
  cases boundary with
  | none => exact (Except.ok.inj hdecoded).symm
  | some b =>
    have hne : b.encode ≠ [] := by
      intro hnil
      have hlen := congrArg List.length hnil
      simp [ContainmentBoundary.encode, encodeMembers, Write.u64] at hlen
    rw [Option.map_some, Option.getD_some, if_neg hne, (h b rfl).decode_encode] at hdecoded
    exact (Except.ok.inj hdecoded).symm

/-- Every part of the runtime keeps the decisions so, when the condition is met. -/
theorem decisions_kept : decisions.Kept EnactsCreated where
  startup := by
    rintro type payload (rfl | rfl | rfl | rfl) <;> exact ⟨by simp, by simp⟩
  initial := by
    intro config store sequence
    exact ⟨by simp [RuntimeState.initial], by simp [OwnDecision, RuntimeState.initial]⟩
  restored := by
    rintro s state topology policy evidence boundary' ⟨hplans, boundary, hbytes, hboundary⟩ hdecoded -
    rw [hbytes] at hdecoded
    obtain rfl := decodePart_boundary hboundary hdecoded
    exact ⟨hplans, hboundary⟩
  replayed := by
    rintro s frame s' ⟨hplan, hboundary⟩ hframe ⟨hplans, hown⟩
    cases hframe with
    | plan type decoded =>
      obtain ⟨written, hpayload, hfits, hwritten⟩ := hplan type
      rw [hpayload] at decoded hfits
      obtain rfl := ContainmentPlan.decode_recovers (lt_of_le_of_lt hfits (by decide)) decoded
      refine ⟨fun plan hmem => ?_, hown⟩
      rcases List.mem_append.mp hmem with hold | hnew
      · exact hplans plan hold
      · exact List.mem_singleton.mp hnew ▸ hwritten
    | @boundary decision type decoded =>
      -- the record names the boundary that was created for its plan
      obtain ⟨written, hpayload, hfits, hwritten⟩ := hboundary type
      rw [hpayload] at decoded hfits
      obtain rfl := decodeBoundaryDecision_recovers (lt_of_le_of_lt hfits (by decide)) decoded
      refine ⟨hplans, fun b hb => ?_⟩
      unfold replayBoundary at hb ⊢
      cases hreleased : decision.released with
      | true => simp [hreleased] at hb
      | false =>
        obtain ⟨boundary, hbytes, hfor⟩ := hwritten hreleased
        simp only [hreleased, Bool.false_eq_true, if_false, hbytes, hfor.decode_encode] at hb
        exact Option.some.inj hb ▸ hfor
    | topology => split <;> exact ⟨hplans, hown⟩
    | policy => split <;> exact ⟨hplans, hown⟩
    | epoch => split <;> exact ⟨hplans, hown⟩
    | attempt =>
      unfold replayAttempt
      split
      · exact ⟨hplans, hown⟩
      · split <;> exact ⟨hplans, hown⟩
    | _ => exact ⟨hplans, hown⟩
  begun := by
    rintro s boot s' ⟨hplans, hown⟩ hstarted
    have hsame := hstarted.same
    refine ⟨fun plan hmem => ?_, fun b hb => ?_⟩
    · rw [hsame.plans] at hmem
      exact hplans plan (mem_of_mem_dropExcess hmem)
    · rw [hsame.boundary] at hb
      rw [hsame.boundary_plan]
      exact hown b hb
  called := by
    rintro env s call s' ⟨hplans, hown⟩ hp ho
    refine ⟨fun plan hmem => ?_, ho.ownDecision hp hplans hown⟩
    rcases List.mem_append.mp (ho.plans.subset hmem) with hold | hnew
    · exact hplans plan hold
    · obtain ⟨-, ⟨t, -, hcomputed⟩, -⟩ := ho.computed (Option.mem_toList.mp hnew)
      exact nextPlan_ownBoundary hcomputed
  recorded := by
    rintro env s call type payload ⟨hplans, -⟩ - hp hrecord hfits
    cases hrecord with
    | @plan id t plan loaded computed returned =>
      exact ⟨fun _ => ⟨plan, rfl, hfits, nextPlan_ownBoundary computed⟩, by simp⟩
    | @boundary request plan decision checked published decided admitted =>
      refine ⟨by simp, fun _ => ⟨_, rfl, hfits, fun hkept => ?_⟩⟩
      have hpassed := checkTransition_passed _ checked
      have hreleased : published.to_released = decide (request.kind = .release) := by
        rw [decided]
        exact hpassed.to_released
      have hkind : request.kind ≠ .release := by
        rw [boundaryRecord, hreleased] at hkept
        simpa using hkept
      have hfound : s.findPlan request.plan = some plan := hpassed.found
      have hcreated := hp hkind admitted plan hfound
      refine ⟨plan.boundary, ?_, ?_⟩
      · simp [boundaryRecord, hreleased, hkind]
      · exact (hplans plan (findPlan_generation hfound).2).resolve_left hcreated
    | _ => exact ⟨by simp, by simp⟩
  checkpointed := fun s h _ => ⟨h.1, s.boundary, rfl, h.2⟩

/-! ## Runs -/

/-- A decision that has been in force: the generation of its plan, and that of its boundary. -/
structure Decision where
  plan : PlanGeneration
  boundary : Option BoundaryGeneration

/-- The decision in force. -/
def System.decision (sys : System) : List Decision :=
  (sys.runtime.map fun s =>
    ⟨s.boundary_plan, s.boundary.map ContainmentBoundary.generation⟩).toList

/-- Note the decisions that have been in force in an incarnation. -/
def noteDecision (sys : System) (event : Event) (earlier : List Decision) : List Decision :=
  match event with
  | .crash _ => []
  | .open_ _ _ _ => if sys.runtime.isSome then earlier else (sys.next event).decision
  | .call _ _ => earlier ++ (sys.next event).decision

/-- After a call, no decision in force in the incarnation before has a newer plan or a newer
boundary than the one in force. -/
def NeverRegresses (p : System × List Decision) : Event → Prop
  | .call env call => ∀ s' ∈ (p.1.next (.call env call)).runtime, ∀ earlier ∈ p.2,
    earlier.plan ≤ s'.boundary_plan ∧ ∀ boundary ∈ s'.boundary, ∀ generation ∈ earlier.boundary,
      generation ≤ boundary.generation
  | _ => True

/-- A call that would change the decision in force names a plan with a boundary, and a report that
would have the plan of its attempt adopted one that is not older than the plan in force. -/
def MovesForward (s : RuntimeState) (env : Env) (call : Call) : Prop :=
  EnactsCreated s env call ∧ match call with
    | .verifyEffect report => ∀ attempt ∈ (s.checkVerification report).toOption,
      report.Confirms attempt → s.Adoptable attempt → s.boundary_plan ≤ attempt.id.plan
    | _ => True

/-- A call that meets the condition does not go back to an older plan. -/
theorem Outcome.boundary_plan_le {env : Env} {s s' : RuntimeState} {call : Call}
    {reply : Result Reply} (ho : Outcome env s call reply s') (hp : MovesForward s env call) :
    s.boundary_plan ≤ s'.boundary_plan := by
  cases ho.decision with
  | same same =>
    rw [same.boundary_plan]
    exact UInt64.le_refl _
  | enacted _ enacted =>
    rw [enacted.boundary_plan]
    rcases enacted.newer with hnewer | hnone
    · exact UInt64.le_of_lt hnewer
    · rw [hnone]
      exact UInt64.zero_le
  | adopted adopted =>
    rw [adopted.boundary_plan, (findPlan_generation adopted.found).1]
    exact hp.2 _ (mem_toOption.mpr adopted.checked) adopted.confirms adopted.adoptable

/-- The decisions of the incarnation are at most the one in force. -/
structure DecisionsBelow (p : System × List Decision) : Prop where
  contents : decisions.Holds p.1
  below : ∀ s ∈ p.1.runtime, ∀ earlier ∈ p.2, earlier.plan ≤ s.boundary_plan
  own : ∀ earlier ∈ p.2, ∀ generation ∈ earlier.boundary, generation = earlier.plan

/-- The decision in force has the generation of its plan. -/
theorem decision_own {sys : System} (h : decisions.Holds sys) {d : Decision}
    (hd : d ∈ sys.decision) : (∀ generation ∈ d.boundary, generation = d.plan) ∧
      ∀ s ∈ sys.runtime, d.plan = s.boundary_plan := by
  rw [System.decision, Option.mem_toList, Option.map_eq_some_iff] at hd
  obtain ⟨s, hrun, rfl⟩ := hd
  refine ⟨fun generation hg => ?_, fun t ht => ?_⟩
  · obtain ⟨b, hb, rfl⟩ := Option.map_eq_some_iff.mp hg
    exact ((h.live s hrun).2 b hb).generation_eq
  · obtain rfl := Option.some.inj (hrun.symm.trans ht)
    rfl

/-- A step that meets the condition keeps the decisions below the one in force, and does not go back
to an older one. -/
theorem DecisionsBelow.next {sys : System} {earlier : List Decision}
    (h : DecisionsBelow (sys, earlier)) {event : Event} (hp : OnCall MovesForward sys event) :
    DecisionsBelow (Runs.observe System.next noteDecision (sys, earlier) event) ∧
      NeverRegresses (sys, earlier) event := by
  have hcreated : OnCall EnactsCreated sys event := by
    cases event with
    | call env call => exact fun s hs => (hp s hs).1
    | open_ config env boot => trivial
    | crash torn_bytes => trivial
  have hcontents := h.contents.next decisions_kept hcreated
  cases event with
  | crash torn_bytes =>
    exact ⟨⟨hcontents, fun s hs => absurd hs (by simp [Runs.observe, next_crash]), by
      simp [Runs.observe, noteDecision]⟩, trivial⟩
  | open_ config env boot =>
    refine ⟨?_, trivial⟩
    cases hrun : sys.runtime with
    | some s =>
      simp only [Runs.observe, noteDecision, hrun, Option.isSome_some, if_true,
        next_open_live hrun]
      exact h
    | none =>
      simp only [Runs.observe, noteDecision, hrun, Option.isSome_none, Bool.false_eq_true, if_false]
      refine ⟨hcontents, fun s hs d hd => ?_, fun d hd => (decision_own hcontents hd).1⟩
      rw [(decision_own hcontents hd).2 s hs]
      exact UInt64.le_refl _
  | call env call =>
    have hbelow : ∀ s' ∈ (sys.next (.call env call)).runtime, ∀ d ∈ earlier,
        d.plan ≤ s'.boundary_plan := by
      intro s' hs' d hd
      cases hrun : sys.runtime with
      | none =>
        rw [next_call_closed hrun] at hs'
        exact h.below s' hs' d hd
      | some s =>
        rw [next_call hrun] at hs'
        obtain rfl := Option.some.inj hs'
        have hforward := (perform_outcome env s call).boundary_plan_le (hp s hrun)
        exact UInt64.le_trans (h.below s hrun d hd) hforward
    refine ⟨⟨hcontents, fun s' hs' d hd => ?_, fun d hd => ?_⟩, fun s' hs' d hd => ?_⟩
    · rcases List.mem_append.mp hd with hold | hnew
      · exact hbelow s' hs' d hold
      · rw [(decision_own hcontents hnew).2 s' hs']
        exact UInt64.le_refl _
    · rcases List.mem_append.mp hd with hold | hnew
      · exact h.own d hold
      · exact (decision_own hcontents hnew).1
    · refine ⟨hbelow s' hs' d hd, fun boundary hboundary generation hgeneration => ?_⟩
      rw [h.own d hd generation hgeneration, ((hcontents.live s' hs').2 boundary hboundary).generation_eq]
      exact hbelow s' hs' d hd

instance EnactsCreated.instDecidable (s : RuntimeState) (env : Env) :
    (call : Call) → Decidable (EnactsCreated s env call)
  | .transition request =>
    have _ : Decidable (∀ plan ∈ s.findPlan request.plan, plan.boundary.generation ≠ 0) :=
      Option.decidableForallMem _
    inferInstanceAs (Decidable (_ → _ → _))
  | .verifyEffect report =>
    have _ : ∀ attempt : ApplyAttempt,
        Decidable (∀ plan ∈ s.findPlan attempt.id.plan, plan.boundary.generation ≠ 0) :=
      fun _ => Option.decidableForallMem _
    have h : Decidable (∀ attempt ∈ (s.checkVerification report).toOption, report.Confirms attempt →
        s.Adoptable attempt → ∀ plan ∈ s.findPlan attempt.id.plan,
          plan.boundary.generation ≠ 0) := Option.decidableForallMem _
    h
  | .applyTopology _ | .applyPolicy _ | .recordDetection _ | .authorize | .plan _
  | .submitApply _ _ _ | .acknowledge _ | .checkpoint => inferInstanceAs (Decidable True)

instance MovesForward.instDecidable (s : RuntimeState) (env : Env) :
    (call : Call) → Decidable (MovesForward s env call)
  | .verifyEffect report =>
    have _ : ∀ attempt : ApplyAttempt, Decidable (report.Confirms attempt → s.Adoptable attempt →
        s.boundary_plan ≤ attempt.id.plan) := fun _ => inferInstanceAs (Decidable (_ → _ → _))
    have _ : Decidable (∀ attempt ∈ (s.checkVerification report).toOption,
        report.Confirms attempt → s.Adoptable attempt → s.boundary_plan ≤ attempt.id.plan) :=
      Option.decidableForallMem _
    inferInstanceAs (Decidable (_ ∧ _))
  | .applyTopology _ | .applyPolicy _ | .recordDetection _ | .authorize | .plan _ | .transition _
  | .submitApply _ _ _ | .acknowledge _ | .checkpoint => inferInstanceAs (Decidable (_ ∧ True))

instance NeverRegresses.instDecidable (p : System × List Decision) :
    (event : Event) → Decidable (NeverRegresses p event)
  | .call env call =>
    -- an option has at most one member, so the 64-bit generations are not enumerated
    have _ : ∀ (earlier : Decision) (boundary : ContainmentBoundary),
        Decidable (∀ generation ∈ earlier.boundary, generation ≤ boundary.generation) :=
      fun _ _ => Option.decidableForallMem _
    inferInstanceAs (Decidable (∀ s' ∈ (p.1.next (.call env call)).runtime, ∀ earlier ∈ p.2,
      earlier.plan ≤ s'.boundary_plan ∧ ∀ boundary ∈ s'.boundary, _))
  | .open_ _ _ _ | .crash _ => inferInstanceAs (Decidable True)

/-- In a run whose decisions have a boundary and whose reports adopt no older plan, the decision in
force never goes back within an incarnation. -/
theorem decision_never_regresses {events : List Event}
    (h : Runs.Along System.next (OnCall MovesForward) {} events) :
    Runs.Along (Runs.observe System.next noteDecision) NeverRegresses ({}, []) events := by
  refine Runs.Along.of_invariant (I := DecisionsBelow) ?_ ?_ (h.observe noteDecision [])
  · rintro ⟨sys, earlier⟩ event hbelow hp
    exact hbelow.next hp
  · exact ⟨.start, fun s hs => absurd hs (by simp), by simp⟩

/-- A first attempt fails, a second one is verified, and a newer plan of the same members follows. -/
def Sample.reappointed : List Event :=
  ((Sample.submitted |> Sample.thenVerify ⟨1, 1⟩ 1 1 .notApplied |> Sample.thenSubmit 1 1 |>
    Sample.thenVerify ⟨1, 2⟩ 1 1 .applied) ++ [Sample.does (.plan 1)]) |>
    Sample.thenTransition .expand 2 (some 1) 1

/-- The newer plan is applied and verified. -/
theorem decision_never_regresses_newer :
    Runs.Along (Runs.observe System.next noteDecision) NeverRegresses ({}, [])
      (Sample.reappointed |> Sample.thenSubmit 2 1 |> Sample.thenVerify ⟨2, 3⟩ 1 1 .applied) :=
  decision_never_regresses (by decide +kernel)

/-- A late report that the first attempt was applied puts the older plan in force again. -/
theorem decision_regressed : ¬ ∀ events,
    Runs.Along (Runs.observe System.next noteDecision) NeverRegresses ({}, []) events := by
  intro h
  have hregresses := h (Sample.reappointed |> Sample.thenVerify ⟨1, 1⟩ 1 2 .applied)
  revert hregresses
  decide +kernel

end Fcfn
