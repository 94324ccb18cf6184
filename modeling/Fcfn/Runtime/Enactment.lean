import Fcfn.Engine.Claimed
import Fcfn.Runtime.Decisions

/-!
# The plans that transitions enact

A transition checks its authorization against the authority in force, and looks its plan up in the
table of plans. The two checks are separate: nothing compares the authority of the plan with the one
in force, and of the three kinds only a release looks at the plan's claim. `enacts_current` and
`gives_up_on_proof` say for which runs a plan is nevertheless current when it is enacted, and proven
when a member is given up. -/

namespace Fcfn

open Words Stateful RuntimeState DurableStore Tables

/-! ## The authority of the plan -/

/-- What a plan is computed from, with the authority in force. -/
structure SameInputs (s s' : RuntimeState) : Prop where
  topology : s'.topology = s.topology
  policy : s'.policy = s.policy
  evidence : s'.evidence = s.evidence
  revision : s'.evidence_revision = s.evidence_revision
  epoch : s'.epoch = s.epoch
  boot : s'.boot = s.boot

namespace SameInputs

variable {s s' s'' : RuntimeState}

theorem rfl' : SameInputs s s := ⟨rfl, rfl, rfl, rfl, rfl, rfl⟩

theorem trans (h : SameInputs s s') (h' : SameInputs s' s'') : SameInputs s s'' where
  topology := h'.topology.trans h.topology
  policy := h'.policy.trans h.policy
  evidence := h'.evidence.trans h.evidence
  revision := h'.revision.trans h.revision
  epoch := h'.epoch.trans h.epoch
  boot := h'.boot.trans h.boot

/-- The authority in force is read off the inputs. -/
theorem agrees (h : SameInputs s s') : s.currentAuthority.Agrees s'.currentAuthority := by
  constructor <;> simp only [currentAuthority, h.topology, h.policy, h.evidence, h.revision, h.epoch,
    h.boot]

/-- So is whether something has to be contained. -/
theorem needsContainment (h : SameInputs s s') {t : Topology}
    (hneeds : (s'.planInputs t).NeedsContainment) : (s.planInputs t).NeedsContainment := by
  simpa only [PlanInputs.NeedsContainment, PlanInputs.sources, PlanInputs.obligations,
    PlanInputs.graph, PlanInputs.instanceSpec, sourceContainable, planInputs, h.policy,
    h.evidence] using hneeds

end SameInputs

/-- The digest of the evidence in force. -/
def System.evidenceDigest (sys : System) : Option Digest :=
  sys.runtime.map fun s => s.evidence.digest

/-- Whether a step puts another authority in force: a process starts or stops, a topology or a policy
is taken in, or an observation changes the evidence. -/
def renews (sys : System) (event : Event) : Bool :=
  match sys.reply event with
  | .ok .opened | .ok .crashed | .ok (.topology _) | .ok (.policy _) => true
  | .ok (.detection _) => (sys.next event).evidenceDigest != sys.evidenceDigest
  | _ => false

/-- Note the plans that were computed since another authority was put in force. -/
def noteFresh (sys : System) (event : Event) (fresh : List ContainmentPlan) :
    List ContainmentPlan :=
  if renews sys event then [] else fresh ++ (Reply.computed (sys.reply event)).toList

/-- A call that puts no other authority in force keeps the inputs. -/
theorem Outcome.sameInputs {env : Env} {s s' : RuntimeState} {call : Call} {reply : Result Reply}
    (h : Outcome env s call reply s') :
    SameInputs s s' ∨ (∃ generation, reply = .ok (.topology generation)) ∨
      (∃ generation, reply = .ok (.policy generation)) ∨
      ∃ record, reply = .ok (.detection record) ∧ s'.evidence.digest ≠ s.evidence.digest := by
  cases h with
  | topology => exact Or.inr (Or.inl ⟨_, rfl⟩)
  | policy => exact Or.inr (Or.inr (Or.inl ⟨_, rfl⟩))
  | detected _ changed => exact Or.inr (Or.inr (Or.inr ⟨_, rfl, changed⟩))
  | transitionFailed _ _ counted => rcases counted with rfl | rfl <;> exact Or.inl ⟨rfl, rfl, rfl, rfl, rfl, rfl⟩
  | transitionRefused _ _ _ counted =>
    rcases counted with rfl | rfl <;> exact Or.inl ⟨rfl, rfl, rfl, rfl, rfl, rfl⟩
  | ackMismatched _ _ _ taken =>
    rcases taken with rfl | ⟨-, rfl⟩ <;> exact Or.inl ⟨rfl, rfl, rfl, rfl, rfl, rfl⟩
  | verified =>
    rw [adoptVerified_eq]
    exact Or.inl ⟨rfl, rfl, rfl, rfl, rfl, rfl⟩
  | _ => exact Or.inl ⟨rfl, rfl, rfl, rfl, rfl, rfl⟩

/-- A call that puts no other authority in force keeps the inputs of the live runtime. -/
theorem sameInputs_of_keeps {sys : System} {s : RuntimeState} (hrun : sys.runtime = some s)
    {env : Env} {call : Call} (hkeeps : renews sys (.call env call) = false) :
    SameInputs s (exec (perform env call) s).2 := by
  have hreply := reply_call hrun env call
  unfold renews at hkeeps
  rcases (perform_outcome env s call).sameInputs with hsame | ⟨g, htopology⟩ | ⟨g, hpolicy⟩ |
    ⟨r, hdetection, hchanged⟩
  · exact hsame
  · simp [hreply, htopology] at hkeeps
  · simp [hreply, hpolicy] at hkeeps
  · simp only [hreply, hdetection, System.evidenceDigest, next_call hrun, hrun, Option.map_some]
      at hkeeps
    exact absurd (by simpa using hkeeps) hchanged

/-- The plans that were noted were computed from the inputs in force. -/
def FreshPlans (p : System × List ContainmentPlan) : Prop :=
  ∀ s ∈ p.1.runtime, ∀ plan ∈ p.2, ∃ s₁ t, s₁.topology = some t ∧ s₁.nextPlan t = .ok plan ∧
    SameInputs s₁ s

/-- A step keeps the noted plans computed from the inputs in force. -/
theorem FreshPlans.next {sys : System} {fresh : List ContainmentPlan} (h : FreshPlans (sys, fresh))
    (event : Event) : FreshPlans (Runs.observe System.next noteFresh (sys, fresh) event) := by
  intro s' hs' plan hplan
  simp only [Runs.observe, noteFresh] at hs' hplan
  split at hplan
  · exact absurd hplan (by simp)
  rename_i hkeeps
  cases event with
  | open_ config env boot =>
    cases hrun : sys.runtime with
    | none =>
      -- an open that gives a runtime puts its authority in force
      rw [next_open hrun] at hs'
      have hopened : sys.reply (.open_ config env boot) = .ok .opened := by
        have hok := mem_toOption.mp hs'
        rw [System.reply, System.step, hrun]
        simp only [hok]
      exact absurd (by simp [renews, hopened]) hkeeps
    | some s =>
      have hreply : Reply.computed (sys.reply (.open_ config env boot)) = none := by
        rw [System.reply, System.step, hrun]
        rfl
      rw [next_open_live hrun] at hs'
      rw [hreply, Option.toList_none, List.append_nil] at hplan
      exact h s' hs' plan hplan
  | crash torn_bytes => exact absurd hs' (by simp [next_crash])
  | call env call =>
    cases hrun : sys.runtime with
    | none =>
      rw [next_call_closed hrun, hrun] at hs'
      exact absurd hs' (by simp)
    | some s =>
      have hsame := sameInputs_of_keeps hrun (Bool.eq_false_iff.mpr hkeeps)
      rw [next_call hrun] at hs'
      obtain rfl := Option.some.inj hs'
      rw [reply_call hrun] at hplan
      rcases List.mem_append.mp hplan with hold | hnew
      · obtain ⟨s₁, t, hloaded, hcomputed, hinputs⟩ := h s hrun plan hold
        exact ⟨s₁, t, hloaded, hcomputed, hinputs.trans hsame⟩
      · obtain ⟨-, ⟨t, hloaded, hcomputed⟩, -⟩ :=
          (perform_outcome env s call).computed (Option.mem_toList.mp hnew)
        exact ⟨s, t, hloaded, hcomputed, hsame⟩

/-- An accepted transition enacts a plan of the authority in force, and a release one that was
computed with no resource Present. -/
def EnactsCurrent (sys : System) : Event → Prop
  | .call env (.transition request) =>
    Reply.accepts (sys.reply (.call env (.transition request))) = true → ∀ s ∈ sys.runtime,
      ∃ plan ∈ s.findPlan request.plan, plan.authority.Agrees s.currentAuthority ∧
        (request.kind = .release → s.evidence.presentResources = [])
  | _ => True

/-- A transition that would be accepted names a plan that was computed since the authority in force
was put there, and a release is asked for with no resource Present, or with one that has to be
contained. -/
def NamesFresh (fresh : List ContainmentPlan) (s : RuntimeState) (env : Env) : Call → Prop
  | .transition request => s.Admits env request →
    (∀ plan ∈ s.findPlan request.plan, plan ∈ fresh) ∧
      (request.kind = .release → s.evidence.presentResources = [] ∨
        ∀ t ∈ s.topology, (s.planInputs t).NeedsContainment)
  | _ => True

/-- A plan that was marked for a contradiction claims nothing. -/
theorem not_claims_markConflicting (plan : ContainmentPlan) :
    ¬ (markConflicting plan).ClaimsContainment := by
  unfold ContainmentPlan.ClaimsContainment
  have hclaim : (markConflicting plan).claim =
      if plan.claim = .invalid ∨ plan.claim = .unsupported then plan.claim else .indeterminate := rfl
  rw [hclaim]
  split
  · rename_i hinvalid
    rcases hinvalid with hinvalid | hinvalid <;> simp [hinvalid]
  · simp

/-- A plan claims containment exactly when its inputs prove it and no contradiction is pending. -/
theorem nextPlan_claim_iff {s : RuntimeState} {t : Topology} {plan : ContainmentPlan}
    (h : s.nextPlan t = .ok plan) :
    plan.ClaimsContainment ↔ s.evidence_conflict = false ∧ (s.planInputs t).Provable := by
  obtain ⟨computed, hcompute, rfl⟩ := nextPlan_ok h
  cases hconflict : s.evidence_conflict with
  | true => simpa using not_claims_markConflicting computed.plan
  | false => simpa using computePlan_claim_iff hcompute

/-- A plan can be released while something has to be contained only when no resource was Present. -/
theorem present_of_nextPlan {s : RuntimeState} {t : Topology} {plan : ContainmentPlan}
    (h : s.nextPlan t = .ok plan) (hreleasable : plan.isReleasable = true)
    (hneeds : (s.planInputs t).NeedsContainment) : s.evidence.presentResources = [] := by
  have hclaims : plan.ClaimsContainment := by
    unfold ContainmentPlan.isReleasable at hreleasable
    rw [Bool.and_eq_true, beq_iff_eq] at hreleasable
    exact Or.inl hreleasable.1
  obtain ⟨hconflict, -⟩ := (nextPlan_claim_iff h).mp hclaims
  obtain ⟨computed, hcompute, rfl⟩ := nextPlan_ok h
  rw [hconflict] at hreleasable
  exact present_of_releasable hcompute hreleasable hneeds

/-- A step that meets the condition enacts a plan of the authority in force. -/
theorem FreshPlans.enacts {sys : System} {fresh : List ContainmentPlan}
    (h : FreshPlans (sys, fresh)) {event : Event} (hp : OnCall (NamesFresh fresh) sys event) :
    EnactsCurrent sys event := by
  cases event with
  | open_ config env boot => trivial
  | crash torn_bytes => trivial
  | call env call =>
    cases call with
    | transition request =>
      intro haccepts s hs
      rw [reply_call hs] at haccepts
      obtain ⟨plan, hadmitted, hfound, ⟨d, hkind⟩, -⟩ :=
        (perform_outcome env s (.transition request)).enacted haccepts
      obtain ⟨hfresh, hrelease⟩ := hp s hs hadmitted
      obtain ⟨s₁, t, hloaded, hcomputed, hinputs⟩ := h s hs plan (hfresh plan hfound)
      refine ⟨plan, hfound, ?_, fun hkindof => ?_⟩
      · rw [(nextPlan_origin hcomputed).1.authority]
        exact hinputs.agrees
      · rcases hrelease hkindof with hnone | hneeds
        · exact hnone
        · have hreleasable : plan.isReleasable = true := by
            rw [hkindof] at hkind
            by_contra hno
            simp [checkKind, hno] at hkind
          rw [hinputs.evidence]
          have htopology : s.topology = some t := hinputs.topology.trans hloaded
          exact present_of_nextPlan hcomputed hreleasable
            (hinputs.needsContainment (hneeds t htopology))
    | _ => trivial

instance AuthorityVector.Agrees.instDecidable (presented current : AuthorityVector) :
    Decidable (presented.Agrees current) :=
  decidable_of_iff _ validateAuthority_eq_valid

instance EnactsCurrent.instDecidable (sys : System) (event : Event) :
    Decidable (EnactsCurrent sys event) :=
  match event with
  | .call _ (.transition request) =>
    have _ : ∀ s : RuntimeState, Decidable (∃ plan ∈ s.findPlan request.plan,
        plan.authority.Agrees s.currentAuthority ∧
          (request.kind = .release → s.evidence.presentResources = [])) :=
      fun _ => Option.decidableExistsMem _
    inferInstanceAs (Decidable (_ → ∀ s ∈ sys.runtime, _))
  | .open_ _ _ _ | .crash _ => inferInstanceAs (Decidable True)
  | .call _ (.applyTopology _) | .call _ (.applyPolicy _) | .call _ (.recordDetection _)
  | .call _ .authorize | .call _ (.plan _) | .call _ (.submitApply _ _ _)
  | .call _ (.acknowledge _) | .call _ (.verifyEffect _) | .call _ .checkpoint =>
    inferInstanceAs (Decidable True)

instance NamesFresh.instDecidable (fresh : List ContainmentPlan) (s : RuntimeState) (env : Env) :
    (call : Call) → Decidable (NamesFresh fresh s env call)
  | .transition request =>
    have _ : Decidable (∀ plan ∈ s.findPlan request.plan, plan ∈ fresh) :=
      Option.decidableForallMem _
    have _ : Decidable (∀ t ∈ s.topology, (s.planInputs t).NeedsContainment) :=
      Option.decidableForallMem _
    inferInstanceAs (Decidable (_ → _ ∧ _))
  | .applyTopology _ | .applyPolicy _ | .recordDetection _ | .authorize | .plan _
  | .submitApply _ _ _ | .acknowledge _ | .verifyEffect _ | .checkpoint =>
    inferInstanceAs (Decidable True)

/-- In a run whose transitions name fresh plans, and whose releases leave nothing to contain, every
accepted transition enacts a plan of the authority in force. -/
theorem enacts_current {events : List Event}
    (h : Runs.Along (Runs.observe System.next noteFresh) (fun p => OnCall (NamesFresh p.2) p.1)
      ({}, []) events) :
    Runs.Along System.next EnactsCurrent {} events := by
  have hobserved : Runs.Along (Runs.observe System.next noteFresh) (fun p => EnactsCurrent p.1)
      ({}, []) events := by
    refine Runs.Along.of_invariant (I := FreshPlans) ?_ ?_ h
    · rintro ⟨sys, fresh⟩ event hfresh hp
      exact ⟨hfresh.next event, hfresh.enacts hp⟩
    · exact fun s hs => absurd hs (by simp)
  exact hobserved.of_observe

/-- A run that plans after the evidence changes. -/
theorem enacts_current_replanned :
    Runs.Along System.next EnactsCurrent {}
      (Sample.planned |> Sample.thenTransition .expand 1 none 1) :=
  enacts_current (by decide +kernel)

/-- A plan of no failure is released after the resource has failed. -/
theorem stale_plan_enacted : ¬ ∀ events, Runs.Along System.next EnactsCurrent {} events := by
  intro h
  have hcurrent := h (([Sample.opens 1, Sample.does .authorize, Sample.does (.plan 1),
    Sample.detects 1 .present, Sample.does .authorize]) |> Sample.thenTransition .release 1 none 2)
  revert hcurrent
  decide +kernel

/-! ## The claim of the plan -/

/-- A plan that was computed, with the state that it was computed in. -/
structure Computation where
  state : RuntimeState
  plan : ContainmentPlan

/-- The inputs of the computation prove containment, and no contradiction was pending. -/
def Computation.Proves (c : Computation) : Prop :=
  c.state.evidence_conflict = false ∧ ∀ t ∈ c.state.topology, (c.state.planInputs t).Provable

instance Computation.Proves.instDecidable (c : Computation) : Decidable c.Proves :=
  have _ : Decidable (∀ t ∈ c.state.topology, (c.state.planInputs t).Provable) :=
    Option.decidableForallMem _
  inferInstanceAs (Decidable (_ ∧ _))

/-- The plan is the one that is computed in the state. -/
def Computation.Valid (c : Computation) : Prop :=
  ∃ t, c.state.topology = some t ∧ c.state.nextPlan t = .ok c.plan

/-- A computed plan claims containment exactly when its inputs prove it. -/
theorem Computation.Valid.claims_iff {c : Computation} (h : c.Valid) :
    c.plan.ClaimsContainment ↔ c.Proves := by
  obtain ⟨t, hloaded, hcomputed⟩ := h
  rw [nextPlan_claim_iff hcomputed]
  unfold Computation.Proves
  simp [hloaded]

/-- Note the plan that a step computes. -/
def noteComputed (sys : System) (event : Event) (computed : List Computation) : List Computation :=
  computed ++ (sys.runtime.bind fun s =>
    (Reply.computed (sys.reply event)).map (Computation.mk s)).toList

/-- A member of the boundary in force is not contained any more. -/
def RuntimeState.LosesMember (s s' : RuntimeState) : Prop :=
  ∃ boundary ∈ s.boundary, ∃ member ∈ boundary.members, ∀ boundary' ∈ s'.boundary,
    boundary'.contains member.resource = false

/-- An accepted transition gives a member up on a plan that claims containment only. -/
def GivesUpOnProof (sys : System) (event : Event) : Prop :=
  match event with
  | .call env (.transition request) =>
    Reply.accepts (sys.reply (.call env (.transition request))) = true → ∀ s ∈ sys.runtime,
      ∀ s' ∈ (sys.next (.call env (.transition request))).runtime, s.LosesMember s' →
        ∃ plan ∈ s.findPlan request.plan, plan.ClaimsContainment
  | _ => True

/-- A contraction that would be accepted names a plan whose inputs prove containment. -/
def ContractsProven (computed : List Computation) (s : RuntimeState) (env : Env) : Call → Prop
  | .transition request => request.kind = .contract → s.Admits env request →
    ∀ plan ∈ s.findPlan request.plan, ∀ c ∈ computed, c.plan = plan → c.Proves
  | _ => True

/-- Every plan of a list was computed. -/
def AllComputed (computed : List Computation) (plans : List ContainmentPlan) : Prop :=
  ∀ plan ∈ plans, ∃ c ∈ computed, c.plan = plan

/-- The plans of the live runtime and of its store were all computed. -/
def computedPlans (computed : List Computation) : Contents where
  live s := AllComputed computed s.plans
  record type payload := type = .planDecision →
    ∃ c ∈ computed, payload = c.plan.encode ∧ payload.length ≤ kMaxRecordPayloadBytes
  saved state := AllComputed computed state.plans

/-- What a call computes is in the list. -/
def ComputesNoted (computed : List Computation) (s : RuntimeState) (env : Env) (call : Call) :
    Prop :=
  AllComputed computed (Reply.computed (exec (perform env call) s).1).toList

/-- Every part of the runtime keeps the plans among those computed. -/
theorem computedPlans_kept (computed : List Computation) :
    (computedPlans computed).Kept (ComputesNoted computed) where
  startup := by
    rintro type payload (h | h | h | h) hplan <;> exact absurd (h.symm.trans hplan) (by simp)
  initial := by
    intro config store sequence plan hplan
    exact absurd hplan (by simp [RuntimeState.initial])
  restored := by
    intro s state topology policy evidence boundary hsaved _ _
    exact hsaved
  replayed := by
    intro s frame s' hrecord hframe h
    cases hframe with
    | plan type decoded =>
      -- the record is decoded to the plan it was written for
      obtain ⟨c, hc, hpayload, hfits⟩ := hrecord type
      rw [hpayload] at decoded hfits
      have hlen : c.plan.encode.length < 2 ^ 32 := lt_of_le_of_lt hfits (by decide)
      obtain rfl := ContainmentPlan.decode_recovers hlen decoded
      intro plan hplan
      rcases List.mem_append.mp hplan with hold | hnew
      · exact h plan hold
      · exact ⟨c, hc, (List.mem_singleton.mp hnew).symm⟩
    | topology => split <;> exact h
    | policy => split <;> exact h
    | epoch => split <;> exact h
    | attempt =>
      unfold replayAttempt
      split
      · exact h
      · split <;> exact h
    | _ => exact h
  begun := by
    intro s boot s' h hstarted plan hplan
    rw [hstarted.same.plans] at hplan
    exact h plan (mem_of_mem_dropExcess hplan)
  called := by
    intro env s call s' h hp ho plan hplan
    rcases List.mem_append.mp (ho.plans.subset hplan) with hold | hnew
    · exact h plan hold
    · exact hp plan hnew
  recorded := by
    intro env s call type payload _ _ hp hrecord hfits hplan
    cases hrecord with
    | @plan id t plan loaded computed' returned =>
      have hmem : plan ∈ (Reply.computed (exec (perform env (.plan id)) s).1).toList := by
        rw [returned]
        exact List.mem_singleton_self plan
      obtain ⟨c, hc, rfl⟩ := hp plan hmem
      exact ⟨c, hc, rfl, hfits⟩
    | _ => exact absurd hplan (by simp)
  checkpointed := fun s h _ => h

/-- More computations keep the plans among them. -/
theorem computedPlans_mono {computed computed' : List Computation}
    (hsub : ∀ c ∈ computed, c ∈ computed') {sys : System} (h : (computedPlans computed).Holds sys) :
    (computedPlans computed').Holds sys where
  synced := h.synced
  disk := by
    refine ⟨fun frame hf htype => ?_, fun sequence payload hs => ?_⟩
    · obtain ⟨c, hc, hpayload⟩ := h.disk.log frame hf htype
      exact ⟨c, hsub c hc, hpayload⟩
    · obtain ⟨state, hpayload, hsaved⟩ := h.disk.snapshot sequence payload hs
      refine ⟨state, hpayload, fun plan hplan => ?_⟩
      obtain ⟨c, hc, hplan⟩ := hsaved plan hplan
      exact ⟨c, hsub c hc, hplan⟩
  live := by
    intro s hs plan hplan
    obtain ⟨c, hc, hplan⟩ := h.live s hs plan hplan
    exact ⟨c, hsub c hc, hplan⟩

/-- The plans are among the computations that were noted, and these were made. -/
structure PlansComputed (p : System × List Computation) : Prop where
  valid : ∀ c ∈ p.2, c.Valid
  plans : (computedPlans p.2).Holds p.1

/-- A step keeps the plans among the computations. -/
theorem PlansComputed.next {sys : System} {computed : List Computation}
    (h : PlansComputed (sys, computed)) (event : Event) :
    PlansComputed (Runs.observe System.next noteComputed (sys, computed) event) := by
  simp only [Runs.observe]
  constructor
  · intro c hc
    rcases List.mem_append.mp hc with hold | hnew
    · exact h.valid c hold
    · rw [Option.mem_toList, Option.bind_eq_some_iff] at hnew
      obtain ⟨s, hrun, hnew⟩ := hnew
      rw [Option.map_eq_some_iff] at hnew
      obtain ⟨plan, hreply, rfl⟩ := hnew
      cases event with
      | call env call =>
        rw [reply_call hrun] at hreply
        obtain ⟨-, ⟨t, hloaded, hcomputed⟩, -⟩ := (perform_outcome env s call).computed hreply
        exact ⟨t, hloaded, hcomputed⟩
      | open_ config env boot =>
        rw [System.reply, System.step, hrun] at hreply
        exact absurd hreply (by simp [Reply.computed, fail])
      | crash torn_bytes =>
        rw [System.reply, System.step] at hreply
        exact absurd hreply (by simp [Reply.computed])
  · have hmono : (computedPlans (noteComputed sys event computed)).Holds sys :=
      computedPlans_mono (fun c hc => List.mem_append_left _ hc) h.plans
    refine hmono.next (computedPlans_kept _) ?_
    cases event with
    | open_ config env boot => trivial
    | crash torn_bytes => trivial
    | call env call =>
      intro s hs plan hplan
      refine ⟨⟨s, plan⟩, List.mem_append_right _ ?_, rfl⟩
      rw [Option.mem_toList] at hplan ⊢
      rw [Option.mem_def] at hs
      rw [hs, Option.bind_some, reply_call hs, hplan]
      rfl

/-- A release and a contraction are the transitions that give a member up, and what a release is
allowed with claims containment. -/
theorem Enacted.claims {s s' : RuntimeState} {env : Env} {request : TransitionRequest}
    {plan : ContainmentPlan} (h : Enacted s env request plan s') (hloses : s.LosesMember s')
    (hcontract : request.kind = .contract → plan.ClaimsContainment) : plan.ClaimsContainment := by
  obtain ⟨d, hkind⟩ := h.kind
  obtain ⟨boundary, hboundary, member, hmember, hlost⟩ := hloses
  cases hk : request.kind with
  | contract => exact hcontract hk
  | release =>
    rw [hk] at hkind
    have hreleasable : plan.isReleasable = true := by
      by_contra hno
      simp [checkKind, hno] at hkind
    unfold ContainmentPlan.isReleasable at hreleasable
    rw [Bool.and_eq_true, beq_iff_eq] at hreleasable
    exact Or.inl hreleasable.1
  | expand =>
    -- every member of the boundary in force is a member of the plan's
    have hsuperset : plan.boundary.isSupersetOf boundary = true := by
      by_contra hno
      rw [Option.mem_def] at hboundary
      simp [checkKind, hk, hboundary, hno] at hkind
    have hkept : plan.boundary.contains member.resource = true :=
      List.all_eq_true.mp hsuperset member hmember
    have hnext : s'.boundary = some plan.boundary := by
      rw [h.boundary, hk]
      rfl
    exact absurd (hlost plan.boundary hnext) (by simp [hkept])

/-- A step that meets the condition gives members up on proof only. -/
theorem PlansComputed.givesUp {sys : System} {computed : List Computation}
    (h : PlansComputed (sys, computed)) {event : Event}
    (hp : OnCall (ContractsProven computed) sys event) : GivesUpOnProof sys event := by
  cases event with
  | open_ config env boot => trivial
  | crash torn_bytes => trivial
  | call env call =>
    cases call with
    | transition request =>
      intro haccepts s hs s' hs' hloses
      rw [reply_call hs] at haccepts
      rw [next_call hs] at hs'
      obtain rfl := Option.some.inj hs'
      obtain ⟨plan, henacted⟩ := (perform_outcome env s (.transition request)).enacted haccepts
      refine ⟨plan, henacted.found, henacted.claims hloses fun hcontract => ?_⟩
      have hretained : plan ∈ s.plans := List.mem_of_find?_eq_some henacted.found
      obtain ⟨c, hc, hplan⟩ := h.plans.live s hs plan hretained
      have hproves : c.Proves := hp s hs hcontract henacted.admitted plan henacted.found c hc hplan
      rw [← hplan]
      exact (h.valid c hc).claims_iff.mpr hproves
    | _ => trivial

instance RuntimeState.LosesMember.instDecidable (s s' : RuntimeState) :
    Decidable (s.LosesMember s') :=
  have _ : ∀ member : BoundaryMember,
      Decidable (∀ boundary' ∈ s'.boundary, boundary'.contains member.resource = false) :=
    fun _ => Option.decidableForallMem _
  inferInstanceAs (Decidable (∃ boundary ∈ s.boundary, ∃ member ∈ boundary.members, _))

instance GivesUpOnProof.instDecidable (sys : System) :
    (event : Event) → Decidable (GivesUpOnProof sys event)
  | .call env (.transition request) =>
    have _ : ∀ s : RuntimeState, Decidable (∃ plan ∈ s.findPlan request.plan,
        plan.ClaimsContainment) := fun _ => Option.decidableExistsMem _
    inferInstanceAs (Decidable (_ → ∀ s ∈ sys.runtime, ∀ s' ∈
      (sys.next (.call env (.transition request))).runtime, s.LosesMember s' → _))
  | .open_ _ _ _ | .crash _ => inferInstanceAs (Decidable True)
  | .call _ (.applyTopology _) | .call _ (.applyPolicy _) | .call _ (.recordDetection _)
  | .call _ .authorize | .call _ (.plan _) | .call _ (.submitApply _ _ _)
  | .call _ (.acknowledge _) | .call _ (.verifyEffect _) | .call _ .checkpoint =>
    inferInstanceAs (Decidable True)

instance ContractsProven.instDecidable (computed : List Computation) (s : RuntimeState) (env : Env) :
    (call : Call) → Decidable (ContractsProven computed s env call)
  | .transition request =>
    have _ : Decidable (∀ plan ∈ s.findPlan request.plan, ∀ c ∈ computed, c.plan = plan → c.Proves) :=
      Option.decidableForallMem _
    inferInstanceAs (Decidable (_ → _ → _))
  | .applyTopology _ | .applyPolicy _ | .recordDetection _ | .authorize | .plan _
  | .submitApply _ _ _ | .acknowledge _ | .verifyEffect _ | .checkpoint =>
    inferInstanceAs (Decidable True)

/-- The resource is contained, and recovers. -/
def Sample.recovered : List Event :=
  (Sample.submitted |> Sample.thenVerify ⟨1, 1⟩ 1 1 .applied) ++ [Sample.detects 2 .absent]

/-- In a run whose contractions name plans that their inputs prove, no member of the boundary in
force is given up on a plan that claims less than containment. -/
theorem gives_up_on_proof {events : List Event}
    (h : Runs.Along (Runs.observe System.next noteComputed)
      (fun p => OnCall (ContractsProven p.2) p.1) ({}, []) events) :
    Runs.Along System.next GivesUpOnProof {} events := by
  have hobserved : Runs.Along (Runs.observe System.next noteComputed)
      (fun p => GivesUpOnProof p.1) ({}, []) events := by
    refine Runs.Along.of_invariant (I := PlansComputed) ?_ ?_ h
    · rintro ⟨sys, computed⟩ event hcomputed hp
      exact ⟨hcomputed.next event, hcomputed.givesUp hp⟩
    · exact ⟨by simp, .start⟩
  exact hobserved.of_observe

/-- A run that gives the resource up when it has recovered. -/
theorem gives_up_on_proof_recovered :
    Runs.Along System.next GivesUpOnProof {}
      ((Sample.recovered ++ [Sample.does .authorize, Sample.does (.plan 2)]) |>
        Sample.thenTransition .contract 2 (some 1) 2) :=
  gives_up_on_proof (by decide +kernel)

/-- The resource is reported Present again under the same generation: the contradiction makes the
plan Indeterminate, and the contraction to it is accepted. -/
theorem given_up_without_proof : ¬ ∀ events, Runs.Along System.next GivesUpOnProof {} events := by
  intro h
  have hproof := h ((Sample.recovered ++ [Sample.detects 2 .present, Sample.does .authorize,
    Sample.does (.plan 2)]) |> Sample.thenTransition .contract 2 (some 1) 2)
  revert hproof
  decide +kernel

end Fcfn
