import Fcfn.Runtime.Transitions

/-!
# The recovered boundary

Two records belong to an accepted transition: its decision and the boundary that it puts in force. A
replay takes the boundary from the second alone, and a snapshot has the boundary in force. The boundary
also changes where nothing is recorded: a report that confirms an attempt has the plan of the attempt
adopted. `BoundaryStep` lists what a call of a durable runtime does to the decision in force, to the
history of decisions and to what the files describe of both. `boundary_recovered` compares what an open
recovers with what was in force before, and `history_in_force` the last accepted decision of the
history with the boundary. -/

namespace Fcfn

open Words Stateful RuntimeState DurableStore Tables

/-! ## The decision in force -/

/-- A decision in force: the boundary, the generation of its plan and the digest of its plan. -/
structure InForce where
  boundary : Option ContainmentBoundary := none
  boundary_plan : PlanGeneration := 0
  boundary_plan_digest : Digest := Digest.zero
  deriving DecidableEq

namespace RuntimeState

/-- The decision in force. -/
def inForce (s : RuntimeState) : InForce := ⟨s.boundary, s.boundary_plan, s.boundary_plan_digest⟩

end RuntimeState

/-- The decision in force is the same. -/
theorem SameDecision.inForce {s s' : RuntimeState} (h : SameDecision s s') :
    s'.inForce = s.inForce := by
  unfold RuntimeState.inForce
  rw [h.boundary, h.boundary_plan, h.boundary_plan_digest]

/-- Replay puts the decision of a boundary record in force, and the other records leave the one there
is. -/
theorem ReplayedFrame.inForce {s s' : RuntimeState} {frame : Frame} (h : ReplayedFrame s frame s') :
    (frame.type ≠ .boundaryDecision ∧ s'.inForce = s.inForce) ∨
      frame.type = .boundaryDecision ∧
        ∃ d, decodeBoundaryDecision frame.payload = .ok d ∧ s' = s.replayBoundary d := by
  cases h with
  | boundary type decoded => exact Or.inr ⟨type, _, decoded, rfl⟩
  | topology type =>
    left
    refine ⟨by simp [type], ?_⟩
    split <;> rfl
  | policy type =>
    left
    refine ⟨by simp [type], ?_⟩
    split <;> rfl
  | epoch type =>
    left
    refine ⟨by simp [type], ?_⟩
    split <;> rfl
  | attempt type =>
    left
    refine ⟨by rcases type with type | type | type <;> simp [type], ?_⟩
    unfold replayAttempt
    split
    · rfl
    · split <;> rfl
  | detection type => exact Or.inl ⟨by rcases type with type | type <;> simp [type], rfl⟩
  | plan type => exact Or.inl ⟨by simp [type], rfl⟩
  | transition type => exact Or.inl ⟨by simp [type], rfl⟩
  | fence type => exact Or.inl ⟨by simp [type], rfl⟩
  | other type => exact Or.inl ⟨by rcases type with type | type | type | type <;> simp [type], rfl⟩

/-- Records of no boundary leave the decision in force. -/
theorem replay_inForce {log : List Frame} (hquiet : ∀ frame ∈ log, frame.type ≠ .boundaryDecision)
    {s s' : RuntimeState} (h : log.foldlM applyReplayedFrame s = .ok s') : s'.inForce = s.inForce := by
  refine replay_induction (P := fun t => t.inForce = s.inForce)
    (fun s₁ frame s₂ hmem hframe hs₁ => ?_) h rfl
  rcases hframe.inForce with ⟨-, hsame⟩ | ⟨htype, -⟩
  · exact hsame.trans hs₁
  · exact absurd htype (hquiet frame hmem)

/-- The record of an accepted decision puts its boundary in force, when the boundary is its plan's own. -/
theorem replayBoundary_inForce {s : RuntimeState} {plan : ContainmentPlan}
    {decision : TransitionDecision}
    (hown : decision.to_released = false → BoundaryFor plan.generation plan.boundary) :
    (s.replayBoundary (boundaryRecord plan decision)).inForce =
      ⟨if decision.to_released then none else some plan.boundary, plan.generation, plan.digest⟩ := by
  unfold replayBoundary boundaryRecord RuntimeState.inForce
  cases hreleased : decision.to_released with
  | true => rfl
  | false =>
    simp only [Bool.false_eq_true, if_false, (hown hreleased).decode_encode]

/-! ## One call -/

/-- The state and the files that a state describes after a call follow from those before. -/
def Follows (disk disk' : Disk) (R : RuntimeState → RuntimeState → Prop) : Prop :=
  ∀ t', Describes disk' t' → ∃ t, Describes disk t ∧ R t t'

/-- What a call of a durable runtime does to the decision in force and to the history of decisions, and
what its files describe of them. -/
inductive BoundaryStep (env : Env) (s : RuntimeState) (disk : Disk) (s' : RuntimeState)
    (disk' : Disk) : Call → Prop
  | quiet {call : Call} (same : s'.inForce = s.inForce)
      (transitions : s'.transitions.IsSuffix s.transitions)
      (files : Follows disk disk' fun t t' =>
        t'.inForce = t.inForce ∧ t'.transitions = t.transitions) :
    BoundaryStep env s disk s' disk' call
  /-- A plan is adopted, and nothing of that is recorded. -/
  | adopted {report : EffectVerification} {attempt : ApplyAttempt} {plan : ContainmentPlan}
      (adopted : Adopted s report attempt plan s')
      (transitions : s'.transitions.IsSuffix s.transitions)
      (files : Follows disk disk' fun t t' =>
        t'.inForce = t.inForce ∧ t'.transitions = t.transitions) :
    BoundaryStep env s disk s' disk' (.verifyEffect report)
  | saved (same : s'.inForce = s.inForce) (transitions : s'.transitions.IsSuffix s.transitions)
      (files : ∀ t, Describes disk' t → t.inForce = s.inForce ∧ t.transitions = s.transitions) :
    BoundaryStep env s disk s' disk' .checkpoint
  | refused {request : TransitionRequest} {recorded decision : TransitionDecision}
      (denied : recorded.status ≠ .accepted ∧ decision.status ≠ .accepted)
      (same : s'.inForce = s.inForce)
      (transitions : s'.transitions.IsSuffix (s.transitions ++ [decision]))
      (files : Follows disk disk' fun t t' =>
        t'.inForce = t.inForce ∧ t'.transitions = t.transitions ++ [recorded]) :
    BoundaryStep env s disk s' disk' (.transition request)
  | halved {request : TransitionRequest} {plan : ContainmentPlan} {recorded : TransitionDecision}
      (passes : s.Passes env request plan recorded)
      (committable : s.countTransition.Committable env (encodeTransition recorded))
      (lost : ¬ s.Completes env plan recorded) (same : s'.inForce = s.inForce)
      (transitions : s'.transitions = s.transitions)
      (files : Follows disk disk' fun t t' =>
        t'.inForce = t.inForce ∧ t'.transitions = t.transitions ++ [recorded]) :
    BoundaryStep env s disk s' disk' (.transition request)
  | accepted {request : TransitionRequest} {plan : ContainmentPlan}
      {recorded decision : TransitionDecision} (passes : s.Passes env request plan recorded)
      (completed : decision = { recorded with sequence := decision.sequence })
      (inForce : s'.inForce =
        ⟨if recorded.to_released then none else some plan.boundary, plan.generation, plan.digest⟩)
      (transitions : s'.transitions.IsSuffix (s.transitions ++ [decision]))
      (files : Follows disk disk' fun t t' =>
        t'.inForce = s'.inForce ∧ t'.transitions = t.transitions ++ [recorded]) :
    BoundaryStep env s disk s' disk' (.transition request)

/-- Records of no decision and no boundary leave what is described. -/
theorem follows_quiet {disk disk' : Disk} {added : List Frame}
    (hsnapshot : disk'.snapshot = disk.snapshot) (hlog : disk'.log = disk.log ++ added)
    (hquiet : ∀ frame ∈ added, frame.type ≠ .transitionDecision ∧ frame.type ≠ .boundaryDecision) :
    Follows disk disk' fun t t' => t'.inForce = t.inForce ∧ t'.transitions = t.transitions := by
  intro t' ht'
  obtain ⟨t, ht, hreplay⟩ := ht'.append hsnapshot hlog
  exact ⟨t, ht, replay_inForce (fun frame hmem => (hquiet frame hmem).2) hreplay,
    (replay_sameLineage (fun frame hmem => (hquiet frame hmem).1) hreplay).transitions⟩

/-- The record of a decision alone adds to the history. -/
theorem follows_decision {disk disk' : Disk} {recorded : TransitionDecision} {sequence : Sequence}
    (hsnapshot : disk'.snapshot = disk.snapshot) (hlog : disk'.log = disk.log ++
      [⟨.transitionDecision, sequence, encodeTransition recorded⟩])
    (hfits : (encodeTransition recorded).length ≤ kMaxRecordPayloadBytes) :
    Follows disk disk' fun t t' =>
      t'.inForce = t.inForce ∧ t'.transitions = t.transitions ++ [recorded] := by
  intro t' ht'
  obtain ⟨t, ht, hreplay⟩ := ht'.append hsnapshot hlog
  rw [List.foldlM_cons, bind_eq_ok] at hreplay
  obtain ⟨t₁, hframe, hrest⟩ := hreplay
  obtain rfl := Except.ok.inj hrest
  rcases (applyReplayedFrame_ok hframe).lineage with ⟨htype, -⟩ | ⟨-, d, hdecoded, rfl⟩
  · exact absurd rfl htype
  · obtain rfl := decodeTransition_recovers (hfits.trans_lt (by decide)) hdecoded
    exact ⟨t, ht, rfl, rfl⟩

/-- The two records of an accepted decision add to the history and put its boundary in force. -/
theorem follows_accepted {disk disk' : Disk} {plan : ContainmentPlan} {recorded : TransitionDecision}
    {sequence sequence' : Sequence} (hsnapshot : disk'.snapshot = disk.snapshot)
    (hlog : disk'.log = disk.log ++ [⟨.transitionDecision, sequence, encodeTransition recorded⟩,
      ⟨.boundaryDecision, sequence', encodeBoundaryDecision (boundaryRecord plan recorded)⟩])
    (hfits : (encodeTransition recorded).length ≤ kMaxRecordPayloadBytes ∧
      (encodeBoundaryDecision (boundaryRecord plan recorded)).length ≤ kMaxRecordPayloadBytes)
    (hown : recorded.to_released = false → BoundaryFor plan.generation plan.boundary) :
    Follows disk disk' fun t t' =>
      t'.inForce = ⟨if recorded.to_released then none else some plan.boundary, plan.generation,
        plan.digest⟩ ∧ t'.transitions = t.transitions ++ [recorded] := by
  intro t' ht'
  -- the files between the two records
  obtain ⟨halfway, hsnapshot₁, hlog₁⟩ : ∃ halfway : Disk, halfway.snapshot = disk.snapshot ∧
      halfway.log = disk.log ++ [⟨.transitionDecision, sequence, encodeTransition recorded⟩] :=
    ⟨⟨disk.snapshot, _, 0⟩, rfl, rfl⟩
  have hsplit : disk'.log = halfway.log ++ [⟨.boundaryDecision, sequence',
      encodeBoundaryDecision (boundaryRecord plan recorded)⟩] := by
    rw [hlog, hlog₁, List.append_assoc]
    rfl
  obtain ⟨t₁, ht₁, hreplay⟩ := ht'.append (hsnapshot.trans hsnapshot₁.symm) hsplit
  obtain ⟨t, ht, -, htransitions⟩ := follows_decision hsnapshot₁ hlog₁ hfits.1 t₁ ht₁
  rw [List.foldlM_cons, bind_eq_ok] at hreplay
  obtain ⟨t₂, hframe, hrest⟩ := hreplay
  obtain rfl := Except.ok.inj hrest
  rcases (applyReplayedFrame_ok hframe).inForce with ⟨htype, -⟩ | ⟨-, d, hdecoded, rfl⟩
  · exact absurd rfl htype
  · obtain rfl := decodeBoundaryDecision_recovers (hfits.2.trans_lt (by decide)) hdecoded
    exact ⟨t, ht, replayBoundary_inForce hown, htransitions⟩

/-- What a call of a durable runtime does, when a boundary that it would put in force was created. -/
theorem boundaryStep {env : Env} {s : RuntimeState} {call : Call} {store store' : DurableStore}
    (hstore : s.store = some store)
    (hstore' : (exec (perform env call) s).2.store = some store')
    (hcreated : EnactsCreated s env call)
    (hown : (∀ plan ∈ s.plans, OwnBoundary plan) ∧ OwnDecision s) :
    BoundaryStep env s store.disk (exec (perform env call) s).2 store'.disk call := by
  have ho := perform_outcome env s call
  -- a transition records its decision and its boundary; of the other calls only a report changes
  -- the boundary, and only a checkpoint what is saved
  by_cases htransition : ∃ request, call = .transition request
  · obtain ⟨request, rfl⟩ := htransition
    obtain ⟨added, hdecides, -, store'', hstore'', hsnapshot, hlog⟩ :=
      transition_decides env request hstore
    obtain rfl := Option.some.inj (hstore'.symm.trans hstore'')
    generalize exec (perform env (.transition request)) s = result at hdecides ⊢
    obtain ⟨reply, s'⟩ := result
    cases hdecides with
    | unrecorded failed transitions same =>
      exact .quiet same.inForce (transitions ▸ List.suffix_refl _)
        (follows_quiet hsnapshot hlog (by simp))
    | @refused recorded decision sequence returned completed generation denied fits transitions same =>
      have hdenied : decision.status ≠ .accepted := by
        rw [completed]
        exact denied
      refine .refused ⟨denied, hdenied⟩ same.inForce ?_ (follows_decision hsnapshot hlog fits)
      rw [transitions]
      exact List.drop_suffix _ _
    | halved sequence failed passes committable fits lost transitions same =>
      exact .halved passes committable lost same.inForce transitions
        (follows_decision hsnapshot hlog fits)
    | @accepted plan recorded decision sequence sequence' returned passes completed fits transitions
        boundary boundary_plan boundary_plan_digest =>
      have hpassed := checkTransition_passed _ passes.checked
      have hfound : s.findPlan request.plan = some plan := hpassed.found
      -- a plan that keeps a boundary in force has one of its own, so its record is decoded
      have hboundary : recorded.to_released = false → BoundaryFor plan.generation plan.boundary := by
        intro hkept
        rw [hpassed.to_released] at hkept
        have hkind : request.kind ≠ .release := by simpa using hkept
        exact (hown.1 plan (findPlan_generation hfound).2).resolve_left
          (hcreated hkind passes.admitted plan hfound)
      have hinForce : s'.inForce = ⟨if recorded.to_released then none else some plan.boundary,
          plan.generation, plan.digest⟩ := by
        unfold RuntimeState.inForce
        rw [boundary, boundary_plan, boundary_plan_digest]
      refine .accepted passes completed hinForce ?_ ?_
      · rw [transitions]
        exact List.drop_suffix _ _
      · rw [hinForce]
        exact follows_accepted hsnapshot hlog fits hboundary
  · have hnot : ∀ request, call ≠ .transition request := fun request heq => htransition ⟨request, heq⟩
    have hdecision := ho.decision
    obtain ⟨htransitions, -, -⟩ := ho.undecided hnot
    rcases ho.grown with hgrown | ⟨rfl, before, after, hbefore, hafter, hsaved⟩
    · rw [hstore, hstore'] at hgrown
      obtain ⟨hsnapshot, -, added, hlog, hadded⟩ := hgrown.disk
      have hfiles := follows_quiet hsnapshot hlog fun frame hmem =>
        (hadded frame hmem).undecided hnot
      cases hdecision with
      | same same => exact .quiet same.inForce htransitions hfiles
      | enacted => exact absurd rfl (hnot _)
      | adopted adopted => exact .adopted adopted htransitions hfiles
    -- a checkpoint changes no decision
    · have hsame : SameDecision s (exec (perform env .checkpoint) s).2 := by
        cases hdecision with
        | same same => exact same
      obtain rfl : store = before := Option.some.inj (hstore.symm.trans hbefore)
      obtain rfl : store' = after := Option.some.inj (hstore'.symm.trans hafter)
      rcases hsaved with rfl | ⟨rfl, hfits⟩
      · exact .quiet hsame.inForce htransitions fun t ht => ⟨t, ht, rfl, rfl⟩
      · refine .saved hsame.inForce htransitions fun t ht => ?_
        obtain ⟨config, store₀, topology, policy, evidence, boundary, -, -, -, hboundary, rfl⟩ :=
          describes_saved rfl rfl hfits ht
        obtain rfl := decodePart_boundary hown.2 hboundary
        exact ⟨rfl, rfl⟩

/-! ## One incident -/

/-- A condition on the calls of the live runtime, among all that may happen. -/
def OnIncident (P : RuntimeState → Env → Call → Prop) (sys : System) : Incident → Prop
  | .event event => OnCall P sys event
  | .openStops _ _ _ _ => True

instance OnIncident.instDecidable {P : RuntimeState → Env → Call → Prop}
    [∀ s env call, Decidable (P s env call)] (sys : System) :
    (incident : Incident) → Decidable (OnIncident P sys incident)
  | .event event => inferInstanceAs (Decidable (OnCall P sys event))
  | .openStops _ _ _ _ => inferInstanceAs (Decidable True)

namespace Contents

variable {c : Contents} {P : RuntimeState → Env → Call → Prop}

/-- The properties, of durable runtimes alone. -/
def ofDurable (c : Contents) : Contents := { c with live := fun s => s.store.isSome → c.live s }

/-- What keeps the properties keeps them of durable runtimes, under a condition on their calls. -/
theorem Kept.ofDurable (hk : c.Kept P) :
    c.ofDurable.Kept fun s env call => s.store.isSome → P s env call where
  startup := hk.startup
  initial := fun config store sequence _ => hk.initial config store sequence
  restored := fun s state topology policy evidence boundary hsaved hboundary hs hdurable =>
    hk.restored s state topology policy evidence boundary hsaved hboundary (hs hdurable)
  replayed := by
    intro s frame s' hrecord hframe hs hdurable
    rw [hframe.store.1] at hdurable
    exact hk.replayed s frame s' hrecord hframe (hs hdurable)
  begun := by
    intro s boot s' hs hstarted hdurable
    rw [hstarted.same.isSome] at hdurable
    exact hk.begun s boot s' (hs hdurable) hstarted
  called := by
    intro env s call s' hs hp ho hdurable
    rw [ho.isSome] at hdurable
    exact hk.called env s call s' (hs hdurable) (hp hdurable) ho
  recorded := fun env s call type payload hs hdurable hp hrecord hfits =>
    hk.recorded env s call type payload (hs hdurable) hdurable (hp hdurable) hrecord hfits
  checkpointed := fun s hs hdurable => hk.checkpointed s (hs hdurable) hdurable

/-- Every incident whose call meets the condition keeps the properties. -/
theorem Holds.suffer (hk : c.Kept P) {sys : System} (h : c.Holds sys) {incident : Incident}
    (hp : OnIncident P sys incident) : c.Holds (sys.suffer incident) := by
  cases incident with
  | event event => exact h.next hk hp
  | openStops config env boot torn_bytes =>
    by_cases hopens : sys.runtime.isNone ∧ config.persist = true
    · have hopened := (h.open_ hk config env boot).disk
      rw [next_open (Option.isNone_iff_eq_none.mp hopens.1)] at hopened
      rw [suffer_openStops hopens]
      exact ⟨fun s hs => absurd hs (by simp), ⟨hopened.log, hopened.snapshot⟩,
        fun s hs => absurd hs (by simp)⟩
    · rw [suffer_openStops_live hopens]
      exact h

end Contents

/-- The plans and the decision in force of a durable runtime are its own, and so are those of its
files, whose log goes on from the snapshot. -/
structure Grounded (sys : System) : Prop where
  sequenced : Sequenced sys
  contents : decisions.ofDurable.Holds sys

/-- Before anything happens. -/
theorem Grounded.start : Grounded {} := ⟨.start, .start⟩

/-- Every incident that puts no boundary in force that was not created keeps it so. -/
theorem Grounded.suffer {sys : System} (h : Grounded sys) {incident : Incident}
    (hp : OnIncident (fun s env call => s.store.isSome → EnactsCreated s env call) sys incident) :
    Grounded (sys.suffer incident) :=
  ⟨h.sequenced.suffer incident, h.contents.suffer decisions_kept.ofDurable hp⟩

/-- What an incident does that is no call: it leaves what is described, and a runtime that is opened
has the decision in force and the last of the history that are described. -/
theorem suffer_boundary {sys : System} (h : Sequenced sys) {incident : Incident}
    (hnot : ∀ env call, incident ≠ .event (.call env call)) :
    (Follows sys.disk (sys.suffer incident).disk fun t t' =>
        t'.inForce = t.inForce ∧ t'.transitions = t.transitions) ∧
      ∀ s ∈ (sys.suffer incident).runtime, s.store.isSome → sys.runtime = some s ∨
        ∃ t, Describes sys.disk t ∧ s.inForce = t.inForce ∧ s.transitions.IsSuffix t.transitions := by
  have hsame : Follows sys.disk sys.disk fun t t' =>
      t'.inForce = t.inForce ∧ t'.transitions = t.transitions := fun t ht => ⟨t, ht, rfl, rfl⟩
  -- a startup has no record of a boundary, and starts from what was recovered
  have hopened : sys.runtime = none → ∀ config env boot,
      (Follows sys.disk (sys.next (.open_ config env boot)).disk fun t t' =>
        t'.inForce = t.inForce ∧ t'.transitions = t.transitions) ∧
      ∀ s ∈ (sys.next (.open_ config env boot)).runtime, s.store.isSome →
        ∃ t, Describes sys.disk t ∧ s.inForce = t.inForce ∧
          s.transitions.IsSuffix t.transitions := by
    intro hrun config env boot
    obtain ⟨hsnapshot, hwrites⟩ := h.opens hrun config env boot
    rcases hwrites with ⟨hlog, hvolatile⟩ |
      ⟨s₀, disk₀, added, hrecover, -, hdescribed, hadded, hlog, hstarted⟩
    · refine ⟨follows_quiet hsnapshot (hlog.trans (List.append_nil _).symm) (by simp),
        fun s hs hdurable => ?_⟩
      exact absurd hdurable (by simp [hvolatile s hs])
    · refine ⟨follows_quiet hsnapshot hlog hadded.undecided, fun s hs _ => ?_⟩
      obtain ⟨hstart, -⟩ := hstarted s hs
      have hkept := hstart.same
      refine ⟨s₀, hdescribed, ?_, ?_⟩
      · unfold RuntimeState.inForce
        rw [hkept.boundary, hkept.boundary_plan, hkept.boundary_plan_digest]
        rfl
      · rw [(hstart.recovered hrecover hdescribed).transitions]
        exact List.drop_suffix _ _
  cases incident with
  | openStops config env boot torn_bytes =>
    -- an open that stops part of the way leaves the files of one that went through
    by_cases hopens : sys.runtime.isNone ∧ config.persist = true
    · have hrun := Option.isNone_iff_eq_none.mp hopens.1
      obtain ⟨hfiles, -⟩ := hopened hrun config env boot
      rw [next_open hrun] at hfiles
      rw [suffer_openStops hopens]
      exact ⟨fun t ht => hfiles t ((describes_congr rfl rfl).mp ht),
        fun s hs => absurd hs (by simp)⟩
    · rw [suffer_openStops_live hopens]
      exact ⟨hsame, fun s hs _ => Or.inl hs⟩
  | event event =>
    cases event with
    | call env call => exact absurd rfl (hnot env call)
    | crash torn_bytes =>
      refine ⟨follows_quiet (diskAfterCrash_snapshot sys torn_bytes)
        ((diskAfterCrash_log sys torn_bytes).trans (List.append_nil _).symm) (by simp), ?_⟩
      intro s hs
      exact absurd hs (by simp [System.suffer, next_crash])
    | open_ config env boot =>
      cases hrun : sys.runtime with
      | some s =>
        have hlive : sys.suffer (.event (.open_ config env boot)) = sys := next_open_live hrun _ _ _
        rw [hlive]
        exact ⟨hsame, fun t ht _ => Or.inl (hrun.symm.trans ht)⟩
      | none =>
        obtain ⟨hfiles, hrecovered⟩ := hopened hrun config env boot
        exact ⟨hfiles, fun s hs hdurable => Or.inr (hrecovered s hs hdurable)⟩

/-- What a call does: nothing to the files, when there is no durable runtime, or one step of a durable
runtime. -/
theorem call_boundary {sys : System} (h : Grounded sys) {env : Env} {call : Call}
    (hp : OnCall (fun s env call => s.store.isSome → EnactsCreated s env call) sys
      (.call env call)) :
    ((sys.next (.call env call)).disk = sys.disk ∧
        ∀ s ∈ (sys.next (.call env call)).runtime, s.store = none) ∨
      ∃ s s', sys.runtime = some s ∧ s.store.isSome ∧ s'.store.isSome ∧
        (sys.next (.call env call)).runtime = some s' ∧
        BoundaryStep env s sys.disk s' (sys.next (.call env call)).disk call := by
  cases hrun : sys.runtime with
  | none =>
    left
    rw [next_call_closed hrun]
    exact ⟨rfl, fun s hs => absurd (hrun.symm.trans hs) (by simp)⟩
  | some s =>
    have hnext := runtime_call hrun env call
    rcases h.sequenced.synced.calls hrun env call with ⟨-, hnone, hfiles⟩ |
      ⟨store, store', hstore, hdisk, hstore', hfiles, -⟩
    · left
      refine ⟨hfiles, fun t ht => ?_⟩
      obtain rfl := Option.some.inj (hnext.symm.trans ht)
      exact hnone
    · right
      have hdurable : s.store.isSome := by simp [hstore]
      refine ⟨s, _, rfl, hdurable, by simp [hstore'], hnext, ?_⟩
      rw [hfiles, ← hdisk]
      exact boundaryStep hstore hstore' (hp s hrun hdurable) (h.contents.live s hrun hdurable)

/-! ## The boundary that an open recovers -/

/-- A transition that would put a boundary in force names a plan that has one, and a report that would
have the plan of its attempt adopted names one that is in force. -/
def RecordsInForce (s : RuntimeState) (env : Env) : Call → Prop
  | .transition request => s.store.isSome → EnactsCreated s env (.transition request)
  | .verifyEffect report => s.store.isSome → ∀ attempt ∈ (s.checkVerification report).toOption,
    report.Confirms attempt → s.Adoptable attempt → ∀ plan ∈ s.findPlan attempt.id.plan,
      s.inForce = ⟨some plan.boundary, plan.generation, plan.digest⟩
  | _ => True

instance RecordsInForce.instDecidable (s : RuntimeState) (env : Env) :
    (call : Call) → Decidable (RecordsInForce s env call)
  | .transition request =>
    inferInstanceAs (Decidable (s.store.isSome → EnactsCreated s env (.transition request)))
  | .verifyEffect report =>
    have _ : ∀ attempt : ApplyAttempt, Decidable (∀ plan ∈ s.findPlan attempt.id.plan,
        s.inForce = ⟨some plan.boundary, plan.generation, plan.digest⟩) :=
      fun _ => Option.decidableForallMem _
    have _ : Decidable (∀ attempt ∈ (s.checkVerification report).toOption,
        report.Confirms attempt → s.Adoptable attempt → ∀ plan ∈ s.findPlan attempt.id.plan,
          s.inForce = ⟨some plan.boundary, plan.generation, plan.digest⟩) :=
      Option.decidableForallMem _
    inferInstanceAs (Decidable (s.store.isSome → _))
  | .applyTopology _ | .applyPolicy _ | .recordDetection _ | .authorize | .plan _
  | .submitApply _ _ _ | .acknowledge _ | .checkpoint => inferInstanceAs (Decidable True)

/-- The boundary in force was created, so what is adopted has one. -/
theorem RecordsInForce.created {s : RuntimeState} {env : Env} {call : Call}
    (h : RecordsInForce s env call) (hdurable : s.store.isSome) (hown : OwnDecision s) :
    EnactsCreated s env call := by
  cases call with
  | transition request => exact h hdurable
  | verifyEffect report =>
    intro attempt hattempt hconfirms hadoptable plan hplan
    have hinForce := h hdurable attempt hattempt hconfirms hadoptable plan hplan
    have hboundary : s.boundary = some plan.boundary := congrArg InForce.boundary hinForce
    exact (hown plan.boundary hboundary).created
  | _ => trivial

/-- Note the decision in force of a durable runtime. -/
def noteInForce (sys : System) (incident : Incident) (noted : InForce) : InForce :=
  (sys.suffer incident).runtime.elim noted fun s => if s.store.isSome then s.inForce else noted

/-- What a durable runtime has in force when it is opened is what the last one had. -/
def BoundaryRecovered (p : System × InForce) : Incident → Prop
  | .event (.open_ config env boot) => p.1.runtime = none →
    ∀ s ∈ (openRuntime config env boot p.1.disk).1.toOption, s.store.isSome → s.inForce = p.2
  | .event (.call _ _) | .event (.crash _) | .openStops _ _ _ _ => True

instance BoundaryRecovered.instDecidable (p : System × InForce) :
    (incident : Incident) → Decidable (BoundaryRecovered p incident)
  | .event (.open_ config env boot) =>
    have _ : Decidable (∀ s ∈ (openRuntime config env boot p.1.disk).1.toOption,
      s.store.isSome → s.inForce = p.2) := Option.decidableForallMem _
    inferInstanceAs (Decidable (p.1.runtime = none → _))
  | .event (.call _ _) | .event (.crash _) | .openStops _ _ _ _ => inferInstanceAs (Decidable True)

/-- What keeps the decision in force recoverable. -/
structure BoundaryKept (p : System × InForce) : Prop where
  grounded : Grounded p.1
  told : ∀ t, Describes p.1.disk t → t.inForce = p.2
  live : ∀ s ∈ p.1.runtime, s.store.isSome → s.inForce = p.2

/-- It is enough that what is in force is what is described. -/
theorem BoundaryKept.of_told {sys : System} {incident : Incident} {noted : InForce}
    (hgrounded : Grounded (sys.suffer incident))
    (hlive : ∀ s ∈ (sys.suffer incident).runtime, s.store.isSome →
      ∀ t, Describes (sys.suffer incident).disk t → t.inForce = s.inForce)
    (hold : (∀ s ∈ (sys.suffer incident).runtime, s.store = none) →
      ∀ t, Describes (sys.suffer incident).disk t → t.inForce = noted) :
    BoundaryKept (sys.suffer incident, noteInForce sys incident noted) := by
  unfold noteInForce
  cases hrun : (sys.suffer incident).runtime with
  | none => exact ⟨hgrounded, hold (by simp [hrun]), fun s hs => absurd (hrun.symm.trans hs) (by simp)⟩
  | some s =>
    by_cases hdurable : s.store.isSome
    · rw [Option.elim_some, if_pos hdurable]
      refine ⟨hgrounded, hlive s hrun hdurable, fun t ht _ => ?_⟩
      obtain rfl := Option.some.inj (hrun.symm.trans ht)
      rfl
    · have hnone : ∀ t ∈ (sys.suffer incident).runtime, t.store = none := by
        intro t ht
        obtain rfl := Option.some.inj (hrun.symm.trans ht)
        simpa using hdurable
      rw [Option.elim_some, if_neg hdurable]
      exact ⟨hgrounded, hold hnone, fun t ht hdurable' =>
        absurd hdurable' (by simp [hnone t ht])⟩

/-- A call that meets the condition records the decision that it leaves in force. -/
theorem BoundaryStep.inForce_recorded {env : Env} {s s' : RuntimeState} {disk disk' : Disk}
    {call : Call} {noted : InForce} (h : BoundaryStep env s disk s' disk' call)
    (hp : RecordsInForce s env call) (hdurable : s.store.isSome) (hs : s.inForce = noted)
    (htold : ∀ t, Describes disk t → t.inForce = noted) :
    ∀ t, Describes disk' t → t.inForce = s'.inForce := by
  -- a record of no boundary leaves what the files describe
  have hfollows : ∀ {R : RuntimeState → RuntimeState → Prop}, Follows disk disk' R →
      (∀ t t', R t t' → t'.inForce = t.inForce) → s'.inForce = s.inForce →
      ∀ t, Describes disk' t → t.inForce = s'.inForce := by
    intro R hfiles hR hsame t' ht'
    obtain ⟨t, ht, hstep⟩ := hfiles t' ht'
    rw [hR t t' hstep, htold t ht, hsame, hs]
  cases h with
  | quiet same _ files => exact hfollows files (fun _ _ h => h.1) same
  | refused _ same _ files => exact hfollows files (fun _ _ h => h.1) same
  | halved _ _ _ same _ files => exact hfollows files (fun _ _ h => h.1) same
  | @adopted report attempt plan adopted _ files =>
    -- nothing is recorded of an adoption, so the plan must have been the one in force
    have hinForce := hp hdurable attempt (mem_toOption.mpr adopted.checked) adopted.confirms
      adopted.adoptable plan adopted.found
    refine hfollows files (fun _ _ h => h.1) ?_
    rw [hinForce]
    unfold RuntimeState.inForce
    rw [adopted.boundary, adopted.boundary_plan, adopted.boundary_plan_digest]
  | saved same _ files =>
    intro t ht
    rw [(files t ht).1, same]
  | accepted _ _ _ _ files =>
    intro t ht
    obtain ⟨-, -, hrecorded, -⟩ := files t ht
    exact hrecorded

/-- Every incident that meets the condition keeps the decision in force recoverable. -/
theorem BoundaryKept.step {sys : System} {noted : InForce} (h : BoundaryKept (sys, noted))
    {incident : Incident} (hp : OnIncident RecordsInForce sys incident) :
    BoundaryKept (sys.suffer incident, noteInForce sys incident noted) := by
  have hcreated : OnIncident (fun s env call => s.store.isSome → EnactsCreated s env call) sys
      incident := by
    cases incident with
    | openStops => trivial
    | event event =>
      cases event with
      | call env call => exact fun s hs hdurable =>
          (hp s hs).created hdurable (h.grounded.contents.live s hs hdurable).2
      | open_ | crash => trivial
  have hgrounded := h.grounded.suffer hcreated
  -- only a call can put another decision in force
  by_cases hcall : ∃ env call, incident = .event (.call env call)
  · obtain ⟨env, call, rfl⟩ := hcall
    rcases call_boundary h.grounded hcreated with ⟨hfiles, hvolatile⟩ |
      ⟨s, s', hrun, hdurable, hdurable', hnext, hstep⟩
    · refine .of_told hgrounded (fun s hs hdurable => ?_) fun _ t ht => ?_
      · exact absurd hdurable (by simp [hvolatile s hs])
      · exact h.told t (hfiles ▸ ht)
    · have hrecorded := hstep.inForce_recorded (hp s hrun) hdurable (h.live s hrun hdurable) h.told
      refine .of_told hgrounded (fun t ht _ => ?_) fun hvolatile => ?_
      · obtain rfl := Option.some.inj (hnext.symm.trans ht)
        exact hrecorded
      · exact absurd hdurable' (by simp [hvolatile s' hnext])
  · obtain ⟨hfiles, hruntime⟩ := suffer_boundary h.grounded.sequenced fun env call heq =>
      hcall ⟨env, call, heq⟩
    have htold : ∀ t, Describes (sys.suffer incident).disk t → t.inForce = noted := by
      intro t' ht'
      obtain ⟨t, ht, hsame, -⟩ := hfiles t' ht'
      rw [hsame]
      exact h.told t ht
    refine .of_told hgrounded (fun s hs hdurable t ht => ?_) fun _ => htold
    rw [htold t ht]
    rcases hruntime s hs hdurable with hlive | ⟨t₀, ht₀, hsame, -⟩
    · exact (h.live s hlive hdurable).symm
    · rw [hsame]
      exact (h.told t₀ ht₀).symm

/-- An open recovers the decision in force. -/
theorem BoundaryKept.recovered {p : System × InForce} (h : BoundaryKept p) (incident : Incident) :
    BoundaryRecovered p incident := by
  cases incident with
  | openStops => trivial
  | event event =>
    cases event with
    | call | crash => trivial
    | open_ config env boot =>
      intro hrun s hs hdurable
      have hnext : s ∈ (p.1.suffer (.event (.open_ config env boot))).runtime := by
        rw [System.suffer, next_open hrun]
        exact hs
      obtain ⟨-, hruntime⟩ := @suffer_boundary p.1 h.grounded.sequenced
        (.event (.open_ config env boot)) (by simp)
      rcases hruntime s hnext hdurable with hlive | ⟨t, ht, hsame, -⟩
      · exact absurd (hrun.symm.trans hlive) (by simp)
      · rw [hsame]
        exact h.told t ht

/-- In every run in which plans that are put in force have a boundary and reports adopt no plan but the
one in force, every open recovers the boundary that was in force, and its plan. -/
theorem boundary_recovered {incidents : List Incident}
    (h : Runs.Along System.suffer (OnIncident RecordsInForce) {} incidents) :
    Runs.Along (Runs.observe System.suffer noteInForce) BoundaryRecovered ({}, {}) incidents := by
  have hstart : BoundaryKept ({}, {}) := by
    refine ⟨.start, fun t ht => ?_, fun s hs => absurd hs (by simp)⟩
    obtain ⟨config, store, rfl⟩ := describes_empty ht
    rfl
  refine Runs.Along.of_invariant (I := BoundaryKept) (fun p incident hkept hp => ?_) hstart
    (h.observe noteInForce {})
  exact ⟨hkept.step hp, hkept.recovered incident⟩

/-- A boundary is put in force, verified and recovered from the log, then from a snapshot. -/
theorem boundary_recovered_verified :
    Runs.Along (Runs.observe System.suffer noteInForce) BoundaryRecovered ({}, {})
      (((Sample.submitted |> Sample.thenVerify ⟨1, 1⟩ 1 1 .applied) ++ [.crash 0, Sample.opens 2,
        Sample.does .checkpoint, .crash 0, Sample.opens 3]).map Incident.event) :=
  boundary_recovered (by decide +kernel)

/-- A late report has an older plan adopted, and an open recovers the newer one, in a run in which every
step succeeds. -/
theorem boundary_not_recovered :
    Runs.Along System.next (fun sys event => (sys.reply event).isOk = true) {}
        ((Sample.reappointed |> Sample.thenVerify ⟨1, 1⟩ 1 2 .applied) ++
          [.crash 0, Sample.opens 2]) ∧
      ¬ Runs.Along (Runs.observe System.suffer noteInForce) BoundaryRecovered ({}, {})
        (((Sample.reappointed |> Sample.thenVerify ⟨1, 1⟩ 1 2 .applied) ++
          [.crash 0, Sample.opens 2]).map Incident.event) := by
  refine ⟨by decide +kernel, fun h => ?_⟩
  rw [List.map_append, show [Event.crash 0, Sample.opens 2].map Incident.event =
    [.event (.crash 0)] ++ [.event (Sample.opens 2)] from rfl, ← List.append_assoc] at h
  have hlast := (Runs.Along.append_right h).1
  revert hlast
  decide +kernel

/-! ## The history of decisions -/

/-- The last decision of a history that was accepted. -/
def lastAccepted (transitions : List TransitionDecision) : Option TransitionDecision :=
  (transitions.filter fun decision => decision.status = .accepted).getLast?

/-- The last accepted decision of what is retained is that of the whole history. -/
theorem lastAccepted_of_suffix {transitions transitions' : List TransitionDecision}
    (h : transitions'.IsSuffix transitions) {d : TransitionDecision}
    (hd : d ∈ lastAccepted transitions') : d ∈ lastAccepted transitions := by
  obtain ⟨older, rfl⟩ := h
  unfold lastAccepted at hd ⊢
  rw [List.filter_append, List.getLast?_append, Option.mem_def.mp hd]
  rfl

/-- A decision that was not accepted is passed over. -/
theorem lastAccepted_denied {transitions : List TransitionDecision} {d : TransitionDecision}
    (h : d.status ≠ .accepted) : lastAccepted (transitions ++ [d]) = lastAccepted transitions := by
  unfold lastAccepted
  rw [List.filter_append, List.filter_singleton]
  simp [h]

/-- An accepted decision is the last one. -/
theorem lastAccepted_accepted {transitions : List TransitionDecision} {d : TransitionDecision}
    (h : d.status = .accepted) : lastAccepted (transitions ++ [d]) = some d := by
  unfold lastAccepted
  rw [List.filter_append, List.filter_singleton]
  simp [h]

/-- A decision agrees with a boundary, or with its absence when it released it. -/
structure TransitionDecision.AgreesWith (d : TransitionDecision)
    (boundary : Option ContainmentBoundary) : Prop where
  released : d.to_released = boundary.isNone
  generation : d.to_generation = (boundary.map ContainmentBoundary.generation).getD 0
  digest : ∀ b ∈ boundary, d.to_digest = b.digest

instance TransitionDecision.AgreesWith.instDecidable (d : TransitionDecision)
    (boundary : Option ContainmentBoundary) : Decidable (d.AgreesWith boundary) :=
  have _ : Decidable (∀ b ∈ boundary, d.to_digest = b.digest) := Option.decidableForallMem _
  decidable_of_iff (d.to_released = boundary.isNone ∧
    d.to_generation = (boundary.map ContainmentBoundary.generation).getD 0 ∧
      ∀ b ∈ boundary, d.to_digest = b.digest)
    ⟨fun ⟨released, generation, digest⟩ => ⟨released, generation, digest⟩,
      fun ⟨released, generation, digest⟩ => ⟨released, generation, digest⟩⟩

/-- An accepted decision agrees with the boundary that it puts in force. -/
theorem PassedTransition.agreesWith {s : RuntimeState} {request : TransitionRequest}
    {plan : ContainmentPlan} {decision : TransitionDecision}
    (h : PassedTransition s request plan decision) :
    decision.AgreesWith (if decision.to_released then none else some plan.boundary) := by
  have hgeneration := h.to_generation
  cases hreleased : decision.to_released with
  | true =>
    rw [hreleased] at hgeneration
    exact ⟨hreleased, hgeneration, by simp⟩
  | false =>
    rw [hreleased] at hgeneration
    refine ⟨hreleased, hgeneration, fun b hb => ?_⟩
    obtain rfl := Option.some.inj hb
    exact h.to_digest

/-- Which decisions there were does not matter to what the last of them agrees with, as long as the
boundary has its generation and its digest. -/
theorem TransitionDecision.AgreesWith.congr {d : TransitionDecision} {b b' : ContainmentBoundary}
    (h : d.AgreesWith (some b)) (hgeneration : b'.generation = b.generation)
    (hdigest : b'.digest = b.digest) : d.AgreesWith (some b') := by
  refine ⟨h.released, h.generation.trans hgeneration.symm, fun c hc => ?_⟩
  obtain rfl := Option.some.inj hc
  exact (h.digest b rfl).trans hdigest.symm

/-- The sequence of a decision does not matter either. -/
theorem TransitionDecision.AgreesWith.completed {d d' : TransitionDecision}
    {boundary : Option ContainmentBoundary} (h : d.AgreesWith boundary)
    (hcompleted : d' = { d with sequence := d'.sequence }) : d'.AgreesWith boundary := by
  generalize d'.sequence = sequence at hcompleted
  subst hcompleted
  exact ⟨h.released, h.generation, h.digest⟩

/-- The last decision of the history that was accepted is the one in force. -/
def RuntimeState.HistoryInForce (s : RuntimeState) : Prop :=
  ∀ d ∈ lastAccepted s.transitions, d.AgreesWith s.boundary

instance RuntimeState.HistoryInForce.instDecidable (s : RuntimeState) : Decidable s.HistoryInForce :=
  have h : Decidable (∀ d ∈ lastAccepted s.transitions, d.AgreesWith s.boundary) :=
    Option.decidableForallMem _
  h

/-- A transition that would put a boundary in force names a plan that has one, the boundary of an
accepted decision that can be recorded can be recorded after it, and a report that would have the plan of
its attempt adopted names one whose boundary has the generation and the digest of the one in force. -/
def KeepsHistory (s : RuntimeState) (env : Env) : Call → Prop
  | .transition request => s.store.isSome → EnactsCreated s env (.transition request) ∧
    (s.Admits env request → ∀ passed ∈ (s.countTransition.checkTransition request
      (s.countTransition.startDecision request)).toOption,
        s.countTransition.Committable env (encodeTransition passed.2) →
          s.Completes env passed.1 passed.2)
  | .verifyEffect report => s.store.isSome → ∀ attempt ∈ (s.checkVerification report).toOption,
    report.Confirms attempt → s.Adoptable attempt → ∀ plan ∈ s.findPlan attempt.id.plan,
      ∀ boundary ∈ s.boundary, plan.boundary.generation = boundary.generation ∧
        plan.boundary.digest = boundary.digest
  | _ => True

instance KeepsHistory.instDecidable (s : RuntimeState) (env : Env) :
    (call : Call) → Decidable (KeepsHistory s env call)
  | .transition request =>
    have _ : Decidable (∀ passed ∈ (s.countTransition.checkTransition request
        (s.countTransition.startDecision request)).toOption,
          s.countTransition.Committable env (encodeTransition passed.2) →
            s.Completes env passed.1 passed.2) := Option.decidableForallMem _
    inferInstanceAs (Decidable (s.store.isSome → EnactsCreated s env (.transition request) ∧
      (s.Admits env request → _)))
  | .verifyEffect report =>
    have _ : ∀ plan : ContainmentPlan, Decidable (∀ boundary ∈ s.boundary,
        plan.boundary.generation = boundary.generation ∧ plan.boundary.digest = boundary.digest) :=
      fun _ => Option.decidableForallMem _
    have _ : ∀ attempt : ApplyAttempt, Decidable (∀ plan ∈ s.findPlan attempt.id.plan,
        ∀ boundary ∈ s.boundary, plan.boundary.generation = boundary.generation ∧
          plan.boundary.digest = boundary.digest) := fun _ => Option.decidableForallMem _
    have _ : Decidable (∀ attempt ∈ (s.checkVerification report).toOption,
        report.Confirms attempt → s.Adoptable attempt → ∀ plan ∈ s.findPlan attempt.id.plan,
          ∀ boundary ∈ s.boundary, plan.boundary.generation = boundary.generation ∧
            plan.boundary.digest = boundary.digest) := Option.decidableForallMem _
    inferInstanceAs (Decidable (s.store.isSome → _))
  | .applyTopology _ | .applyPolicy _ | .recordDetection _ | .authorize | .plan _
  | .submitApply _ _ _ | .acknowledge _ | .checkpoint => inferInstanceAs (Decidable True)

/-- The boundary in force was created, so what is adopted has one. -/
theorem KeepsHistory.created {s : RuntimeState} {env : Env} {call : Call}
    (h : KeepsHistory s env call) (hdurable : s.store.isSome) (hown : OwnDecision s) :
    EnactsCreated s env call := by
  cases call with
  | transition request => exact (h hdurable).1
  | verifyEffect report =>
    intro attempt hattempt hconfirms hadoptable plan hplan
    have hmembers := hadoptable
    obtain ⟨adopted, -, hmembers⟩ := hmembers
    obtain ⟨boundary, hboundary, -⟩ := (Option.any_eq_true _ _).mp hmembers
    obtain ⟨hgeneration, -⟩ := h hdurable attempt hattempt hconfirms hadoptable plan hplan
      boundary hboundary
    rw [hgeneration]
    exact (hown boundary hboundary).created
  | _ => trivial

/-- What the history of decisions says agrees with the boundary in force, in the live runtime and in
what its files describe. -/
structure HistoryKept (sys : System) : Prop where
  grounded : Grounded sys
  told : ∀ t, Describes sys.disk t → t.HistoryInForce
  live : ∀ s ∈ sys.runtime, s.store.isSome → s.HistoryInForce

/-- The boundary is the same, and the history does not have another accepted decision. -/
theorem RuntimeState.HistoryInForce.of_subset {s s' : RuntimeState} (h : s.HistoryInForce)
    (hboundary : s'.boundary = s.boundary)
    (hlast : ∀ d ∈ lastAccepted s'.transitions, d ∈ lastAccepted s.transitions) :
    s'.HistoryInForce := by
  intro d hd
  rw [hboundary]
  exact h d (hlast d hd)

/-- A call that meets the condition keeps the history in force, in the state and in its files. -/
theorem BoundaryStep.historyInForce {env : Env} {s s' : RuntimeState} {disk disk' : Disk}
    {call : Call} (h : BoundaryStep env s disk s' disk' call) (hp : KeepsHistory s env call)
    (hdurable : s.store.isSome) (hs : s.HistoryInForce)
    (htold : ∀ t, Describes disk t → t.HistoryInForce) :
    s'.HistoryInForce ∧ ∀ t, Describes disk' t → t.HistoryInForce := by
  have hboundary : ∀ {t t' : RuntimeState}, t'.inForce = t.inForce → t'.boundary = t.boundary :=
    fun hsame => congrArg InForce.boundary hsame
  -- where a step records no decision, what the files describe has the history it had
  have hquiet : (Follows disk disk' fun t t' =>
      t'.inForce = t.inForce ∧ t'.transitions = t.transitions) →
      ∀ t, Describes disk' t → t.HistoryInForce := by
    intro hfiles t' ht'
    obtain ⟨t, ht, hsame, htransitions⟩ := hfiles t' ht'
    refine (htold t ht).of_subset (hboundary hsame) fun d hd => ?_
    rwa [htransitions] at hd
  cases h with
  | quiet same transitions files =>
    exact ⟨hs.of_subset (hboundary same) fun d hd => lastAccepted_of_suffix transitions hd,
      hquiet files⟩
  -- the history names the boundary that was adopted from, so the two must look the same to it
  | @adopted report attempt plan adopted transitions files =>
    refine ⟨fun d hd => ?_, hquiet files⟩
    obtain ⟨boundary, hcurrent, -⟩ := adopted.members
    obtain ⟨hgeneration, hdigest⟩ := hp hdurable attempt (mem_toOption.mpr adopted.checked)
      adopted.confirms adopted.adoptable plan adopted.found boundary hcurrent
    have hagrees := hs d (lastAccepted_of_suffix transitions hd)
    rw [hcurrent] at hagrees
    rw [adopted.boundary]
    exact hagrees.congr hgeneration hdigest
  | saved same transitions files =>
    refine ⟨hs.of_subset (hboundary same) fun d hd => lastAccepted_of_suffix transitions hd,
      fun t ht => ?_⟩
    obtain ⟨hsaved, htransitions⟩ := files t ht
    refine hs.of_subset (hboundary hsaved) fun d hd => ?_
    rwa [htransitions] at hd
  | @refused request recorded decision denied same transitions files =>
    refine ⟨hs.of_subset (hboundary same) fun d hd => ?_, fun t' ht' => ?_⟩
    · rw [← lastAccepted_denied denied.2]
      exact lastAccepted_of_suffix transitions hd
    · obtain ⟨t, ht, hsame, htransitions⟩ := files t' ht'
      refine (htold t ht).of_subset (hboundary hsame) fun d hd => ?_
      rwa [htransitions, lastAccepted_denied denied.1] at hd
  -- a decision without its boundary is what the condition excludes
  | @halved request plan recorded passes committable lost =>
    have hchecked : (plan, recorded) ∈ (s.countTransition.checkTransition request
        (s.countTransition.startDecision request)).toOption := by
      rw [passes.checked]
      rfl
    exact absurd ((hp hdurable).2 passes.admitted (plan, recorded) hchecked committable) lost
  | @accepted request plan recorded decision passes completed inForce transitions files =>
    have hpassed := checkTransition_passed _ passes.checked
    have hagrees := hpassed.agreesWith
    have hafter : s'.boundary = if recorded.to_released then none else some plan.boundary :=
      congrArg InForce.boundary inForce
    rw [← hafter] at hagrees
    refine ⟨fun d hd => ?_, fun t' ht' => ?_⟩
    -- an accepted decision is the last of the history, in the table and in the files
    · have hlast : d ∈ lastAccepted (s.transitions ++ [decision]) :=
        lastAccepted_of_suffix transitions hd
      have haccepted : decision.status = .accepted := by
        rw [completed]
        exact hpassed.accepted
      rw [lastAccepted_accepted haccepted] at hlast
      obtain rfl := Option.some.inj hlast
      exact hagrees.completed completed
    · obtain ⟨t, ht, hsame, htransitions⟩ := files t' ht'
      intro d hd
      rw [htransitions, lastAccepted_accepted hpassed.accepted] at hd
      obtain rfl := Option.some.inj hd
      rw [hboundary hsame]
      exact hagrees

/-- Every incident that meets the condition keeps the history in force. -/
theorem HistoryKept.step {sys : System} (h : HistoryKept sys) {incident : Incident}
    (hp : OnIncident KeepsHistory sys incident) : HistoryKept (sys.suffer incident) := by
  have hcreated : OnIncident (fun s env call => s.store.isSome → EnactsCreated s env call) sys
      incident := by
    cases incident with
    | openStops => trivial
    | event event =>
      cases event with
      | call env call => exact fun s hs hdurable =>
          (hp s hs).created hdurable (h.grounded.contents.live s hs hdurable).2
      | open_ | crash => trivial
  have hgrounded := h.grounded.suffer hcreated
  -- only a call adds to the history, and an open cuts its beginning off
  by_cases hcall : ∃ env call, incident = .event (.call env call)
  · obtain ⟨env, call, rfl⟩ := hcall
    rcases call_boundary h.grounded hcreated with ⟨hfiles, hvolatile⟩ |
      ⟨s, s', hrun, hdurable, -, hnext, hstep⟩
    · refine ⟨hgrounded, fun t ht => h.told t (hfiles ▸ ht), fun s hs hdurable => ?_⟩
      exact absurd hdurable (by simp [hvolatile s hs])
    · obtain ⟨hlive, htold⟩ := hstep.historyInForce (hp s hrun) hdurable (h.live s hrun hdurable)
        h.told
      refine ⟨hgrounded, htold, fun t ht _ => ?_⟩
      obtain rfl := Option.some.inj (hnext.symm.trans ht)
      exact hlive
  · obtain ⟨hfiles, hruntime⟩ := suffer_boundary h.grounded.sequenced fun env call heq =>
      hcall ⟨env, call, heq⟩
    refine ⟨hgrounded, fun t' ht' => ?_, fun s hs hdurable => ?_⟩
    · obtain ⟨t, ht, hsame, htransitions⟩ := hfiles t' ht'
      refine (h.told t ht).of_subset (congrArg InForce.boundary hsame) fun d hd => ?_
      rwa [htransitions] at hd
    · rcases hruntime s hs hdurable with hlive | ⟨t, ht, hsame, htransitions⟩
      · exact h.live s hlive hdurable
      · exact (h.told t ht).of_subset (congrArg InForce.boundary hsame)
          fun d hd => lastAccepted_of_suffix htransitions hd

/-- The process stops after the record of an accepted decision, before that of its boundary. -/
def Sample.halved : List Event :=
  planned ++ [.call { env with append_fails := fun sequence => sequence == 8 }
    (.transition ⟨.expand, 1, planDigest planned 1, 0, true, 1⟩), .crash 7, opens 2]

end Fcfn
