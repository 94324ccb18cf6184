import Fcfn.Runtime.Checkpoints
import Fcfn.Runtime.Described

/-!
# Transition lineage

A decision is encoded before the commit that assigns its sequence, so the record in the log has the
sequence from before, or none, while the decision that is returned and retained has its own. A
snapshot saves the retained one. A decision is therefore recovered as it was returned when it comes
from a snapshot, and `lineage_survives` says so for whole runs; `lineage_altered` recovers one from
the log. The generations are counted by a counter that neither replay nor a snapshot sets back
(`Numbered`), so none is used twice. -/

namespace Fcfn

open Words Stateful RuntimeState DurableStore Tables

/-! ## Decisions by generation -/

namespace RuntimeState

/-- The retained decision of a generation. -/
def transitionByGeneration (s : RuntimeState) (generation : TransitionGeneration) :
    Result TransitionDecision :=
  match s.transitions.find? fun decision => decision.generation == generation with
  | some decision => .ok decision
  | none => fail .notFound "transition generation is not retained"

/-- The retained decisions are in the order of their generations, and the counter has reached all. -/
structure Numbered (s : RuntimeState) : Prop where
  ascending : s.transitions.Pairwise fun decision later => decision.generation < later.generation
  counted : ∀ decision ∈ s.transitions, decision.generation ≤ s.transition_counter

/-- The same decisions are retained, and the counter is the same. -/
structure SameLineage (s s' : RuntimeState) : Prop where
  transitions : s'.transitions = s.transitions
  transition_counter : s'.transition_counter = s.transition_counter

/-- Nothing happened to the decisions. -/
theorem SameLineage.refl (s : RuntimeState) : SameLineage s s := ⟨rfl, rfl⟩

/-- The numbers stay in order. -/
theorem SameLineage.numbered {s s' : RuntimeState} (h : SameLineage s s') (hs : s.Numbered) :
    s'.Numbered := by
  obtain ⟨htransitions, hcounter⟩ := h
  refine ⟨?_, ?_⟩
  · rw [htransitions]
    exact hs.ascending
  · rw [htransitions, hcounter]
    exact hs.counted

/-- A decision has its generation alone. -/
theorem Numbered.eq_of_generation {s : RuntimeState} (h : s.Numbered) {d d' : TransitionDecision}
    (hd : d ∈ s.transitions) (hd' : d' ∈ s.transitions) (hsame : d.generation = d'.generation) :
    d = d' := by
  have hnodup : (s.transitions.map TransitionDecision.generation).Nodup :=
    List.pairwise_map.mpr (h.ascending.imp fun hlt => UInt64.ne_of_lt hlt)
  exact List.inj_on_of_nodup_map hnodup hd hd' hsame

/-- What is found is retained under its generation. -/
theorem transitionByGeneration_ok {s : RuntimeState} {generation : TransitionGeneration}
    {d : TransitionDecision} (h : s.transitionByGeneration generation = .ok d) :
    d ∈ s.transitions ∧ d.generation = generation := by
  unfold transitionByGeneration at h
  split at h
  · rename_i found hfind
    obtain rfl := Except.ok.inj h
    exact ⟨List.mem_of_find?_eq_some hfind, by simpa using List.find?_some hfind⟩
  · exact absurd h (by simp [fail])

/-- A retained decision is found. -/
theorem Numbered.transitionByGeneration_eq {s : RuntimeState} (h : s.Numbered)
    {d : TransitionDecision} (hd : d ∈ s.transitions) :
    s.transitionByGeneration d.generation = .ok d := by
  obtain ⟨found, hfind⟩ := Option.isSome_iff_exists.mp
    (List.find?_isSome (p := fun decision => decision.generation == d.generation)
      |>.mpr ⟨d, hd, by simp⟩)
  have hok : s.transitionByGeneration d.generation = .ok found := by
    unfold transitionByGeneration
    rw [hfind]
  obtain ⟨hfound, hgeneration⟩ := transitionByGeneration_ok hok
  rw [hok, h.eq_of_generation hfound hd hgeneration]

/-- A later decision goes on with the numbers. -/
theorem Numbered.concat {s : RuntimeState} (h : s.Numbered) {d : TransitionDecision}
    (hlater : s.transition_counter < d.generation) :
    (s.transitions ++ [d]).Pairwise fun decision later =>
      decision.generation < later.generation := by
  refine List.pairwise_append.mpr ⟨h.ascending, List.pairwise_singleton _ _, ?_⟩
  intro decision hmem last hlast
  rw [List.mem_singleton.mp hlast]
  exact UInt64.lt_of_le_of_lt (h.counted decision hmem) hlater

/-- Retaining fewer decisions leaves the numbers in order. -/
theorem Numbered.sublist {s s' : RuntimeState} (h : s.Numbered)
    (hkept : s'.transitions.Sublist s.transitions)
    (hcounter : s'.transition_counter = s.transition_counter) : s'.Numbered := by
  refine ⟨h.ascending.sublist hkept, fun decision hmem => ?_⟩
  rw [hcounter]
  exact h.counted decision (hkept.subset hmem)

/-- A replayed decision that is later than the counter goes on with the numbers, and sets the
counter. -/
theorem Numbered.replayTransition {s : RuntimeState} (h : s.Numbered) {d : TransitionDecision}
    (hlater : s.transition_counter < d.generation) :
    (s.replayTransition d).Numbered ∧ (s.replayTransition d).transition_counter = d.generation := by
  have hmax : (s.replayTransition d).transition_counter = d.generation := by
    show (if s.transition_counter ≤ d.generation then d.generation else s.transition_counter) = _
    rw [if_pos (UInt64.le_of_lt hlater)]
  refine ⟨⟨h.concat hlater, fun decision hmem => ?_⟩, hmax⟩
  rw [hmax]
  rcases List.mem_append.mp hmem with hold | hnew
  · exact UInt64.le_trans (h.counted decision hold) (UInt64.le_of_lt hlater)
  · rw [List.mem_singleton.mp hnew]
    exact UInt64.le_refl _

end RuntimeState

/-! ## Replay -/

/-- Replay retains the decision of a record, and the other records leave the decisions alone. -/
theorem ReplayedFrame.lineage {s s' : RuntimeState} {frame : Frame} (h : ReplayedFrame s frame s') :
    (frame.type ≠ .transitionDecision ∧ SameLineage s s') ∨
      frame.type = .transitionDecision ∧
        ∃ d, decodeTransition frame.payload = .ok d ∧ s' = s.replayTransition d := by
  cases h with
  | transition type decoded => exact Or.inr ⟨type, _, decoded, rfl⟩
  -- a topology, a policy or an epoch that is not newer is skipped, and the decisions stay either
  -- way
  | topology type =>
    left
    refine ⟨by simp [type], ?_⟩
    split <;> exact ⟨rfl, rfl⟩
  | policy type =>
    left
    refine ⟨by simp [type], ?_⟩
    split <;> exact ⟨rfl, rfl⟩
  | epoch type =>
    left
    refine ⟨by simp [type], ?_⟩
    split <;> exact ⟨rfl, rfl⟩
  | attempt type =>
    left
    refine ⟨by rcases type with type | type | type <;> simp [type], ?_⟩
    unfold replayAttempt
    split
    · exact ⟨rfl, rfl⟩
    · split <;> exact ⟨rfl, rfl⟩
  | detection type =>
    exact Or.inl ⟨by rcases type with type | type <;> simp [type], rfl, rfl⟩
  | plan type => exact Or.inl ⟨by simp [type], rfl, rfl⟩
  | boundary type => exact Or.inl ⟨by simp [type], rfl, rfl⟩
  | fence type => exact Or.inl ⟨by simp [type], rfl, rfl⟩
  | other type => exact Or.inl ⟨by rcases type with type | type | type | type <;> simp [type], rfl, rfl⟩

/-- Records of no decision leave the decisions alone. -/
theorem replay_sameLineage {log : List Frame} (hquiet : ∀ frame ∈ log, frame.type ≠ .transitionDecision)
    {s s' : RuntimeState} (h : log.foldlM applyReplayedFrame s = .ok s') : SameLineage s s' := by
  refine replay_induction (P := SameLineage s) (fun s₁ frame s₂ hmem hframe hs₁ => ?_) h (.refl s)
  rcases hframe.lineage with ⟨-, hsame⟩ | ⟨htype, -⟩
  · exact ⟨hsame.transitions.trans hs₁.transitions,
      hsame.transition_counter.trans hs₁.transition_counter⟩
  · exact absurd htype (hquiet frame hmem)

/-- Replaying a log depends on the decisions alone as far as the decisions go. -/
theorem replay_lineage_congr {log : List Frame} {s t s' t' : RuntimeState} (hsame : SameLineage s t)
    (hs : log.foldlM applyReplayedFrame s = .ok s')
    (ht : log.foldlM applyReplayedFrame t = .ok t') : SameLineage s' t' := by
  -- over the log: the two states may differ in all but the decisions, so both replays are followed
  induction log generalizing s t with
  | nil =>
    rw [List.foldlM_nil, pure_eq_ok] at hs ht
    subst hs ht
    exact hsame
  | cons frame log ih =>
    rw [List.foldlM_cons, bind_eq_ok] at hs ht
    obtain ⟨s₁, hframe, hs⟩ := hs
    obtain ⟨t₁, hframe', ht⟩ := ht
    refine ih ?_ hs ht
    -- the type of the record says for both states whether it has a decision
    rcases (applyReplayedFrame_ok hframe).lineage with ⟨htype, hleft⟩ | ⟨htype, d, hdecoded, rfl⟩
    · rcases (applyReplayedFrame_ok hframe').lineage with ⟨-, hright⟩ | ⟨htype', -⟩
      · exact ⟨hright.transitions.trans (hsame.transitions.trans hleft.transitions.symm),
          hright.transition_counter.trans
            (hsame.transition_counter.trans hleft.transition_counter.symm)⟩
      · exact absurd htype' htype
    · rcases (applyReplayedFrame_ok hframe').lineage with ⟨htype', -⟩ | ⟨-, d', hdecoded', rfl⟩
      · exact absurd htype htype'
      · obtain rfl := Except.ok.inj (hdecoded.symm.trans hdecoded')
        refine ⟨?_, ?_⟩
        · show t.transitions ++ [d] = s.transitions ++ [d]
          rw [hsame.transitions]
        · show max t.transition_counter d.generation = max s.transition_counter d.generation
          rw [hsame.transition_counter]

/-- The files say which decisions there are. -/
theorem Describes.sameLineage {disk : Disk} {s t : RuntimeState} (hs : Describes disk s)
    (ht : Describes disk t) : SameLineage s t := by
  obtain ⟨config, store, s₀, hfrom, hs⟩ := hs
  obtain ⟨config', store', t₀, hfrom', ht⟩ := ht
  refine replay_lineage_congr ?_ hs ht
  unfold restoreFrom at hfrom hfrom'
  split at hfrom
  · rename_i hempty
    rw [if_pos hempty] at hfrom'
    obtain rfl := Except.ok.inj hfrom
    obtain rfl := Except.ok.inj hfrom'
    exact ⟨rfl, rfl⟩
  · rename_i hne
    rw [if_neg hne] at hfrom'
    obtain ⟨restored, _, _, _, _, hdecoded, -, -, -, -, rfl⟩ := restoreSnapshot_ok hfrom
    obtain ⟨restored', _, _, _, _, hdecoded', -, -, -, -, rfl⟩ := restoreSnapshot_ok hfrom'
    obtain rfl := Except.ok.inj (hdecoded.symm.trans hdecoded')
    exact ⟨rfl, rfl⟩

/-- The records of a startup are of its own types. -/
theorem StartupLog.type {s : RuntimeState} {done : Bool} {added : List Frame}
    (h : StartupLog s done added) : ∀ frame ∈ added, frame.type = .topologyDefinition ∨
      frame.type = .policyDefinition ∨ frame.type = .epochAdvance ∨ frame.type = .fence := by
  have hquiet : ∀ frame : Frame, frame.type = .topologyDefinition ∨ frame.type = .policyDefinition →
      frame.type = .topologyDefinition ∨ frame.type = .policyDefinition ∨
        frame.type = .epochAdvance ∨ frame.type = .fence := by
    intro frame h
    -- a startup that stopped early has written the first of its records only
    rcases h with htopology | hpolicy
    · exact Or.inl htopology
    · exact Or.inr (Or.inl hpolicy)
  intro frame hmem
  cases h with
  | quiet quiet => exact hquiet frame (quiet frame hmem)
  | advanced quiet =>
    rcases List.mem_append.mp hmem with hold | hnew
    · exact hquiet frame (quiet frame hold)
    · rw [List.mem_singleton.mp hnew]
      simp
  | fenced quiet =>
    rcases List.mem_append.mp hmem with hold | hnew
    · exact hquiet frame (quiet frame hold)
    · rcases List.mem_cons.mp hnew with rfl | hnew
      · simp
      · rw [List.mem_singleton.mp hnew]
        simp

/-- A startup records no decision, and no boundary. -/
theorem StartupLog.undecided {s : RuntimeState} {done : Bool} {added : List Frame}
    (h : StartupLog s done added) : ∀ frame ∈ added,
      frame.type ≠ .transitionDecision ∧ frame.type ≠ .boundaryDecision := by
  intro frame hmem
  rcases h.type frame hmem with htype | htype | htype | htype <;> simp [htype]

/-- A startup leaves the counter. -/
theorem Started.transition_counter {s s' : RuntimeState} (h : Started s s') :
    s'.transition_counter = s.transition_counter := by
  cases h with
  | volatile configured | durable configured =>
    cases configured with
    | kept => rfl
    | built =>
      unfold configure
      split <;> rfl

/-! ## What a transition records -/

/-- The decision that a reply carries. -/
def Reply.decision : Result Reply → Option TransitionDecision
  | .ok (.transition decision) => some decision
  | _ => none

/-- The checks of a transition pass, and this is what it is accepted with. -/
structure RuntimeState.Passes (s : RuntimeState) (env : Env) (request : TransitionRequest)
    (plan : ContainmentPlan) (decision : TransitionDecision) : Prop where
  admitted : s.Admits env request
  checked : s.countTransition.checkTransition request (s.countTransition.startDecision request) =
    .ok (plan, decision)

/-- The boundary of an accepted decision can be recorded after the decision. -/
def RuntimeState.Completes (s : RuntimeState) (env : Env) (plan : ContainmentPlan)
    (decision : TransitionDecision) : Prop :=
  (s.countTransition.committed .transitionDecision (encodeTransition decision)).Committable env
    (encodeBoundaryDecision (boundaryRecord plan decision))

instance RuntimeState.Completes.instDecidable (s : RuntimeState) (env : Env) (plan : ContainmentPlan)
    (decision : TransitionDecision) : Decidable (s.Completes env plan decision) :=
  inferInstanceAs (Decidable (RuntimeState.Committable _ _ _))

/-- What a transition of a durable runtime leads to: what it returns, the state after it and the
records it appends. The record and the decision have the generation that follows the counter. -/
inductive Decides (env : Env) (s : RuntimeState) (request : TransitionRequest) (reply : Result Reply)
    (s' : RuntimeState) : List Frame → Prop
  /-- The decision could not be recorded. -/
  | unrecorded (failed : Reply.decision reply = none) (transitions : s'.transitions = s.transitions)
      (same : SameDecision s s') : Decides env s request reply s' []
  | refused {recorded decision : TransitionDecision} (sequence : Sequence)
      (returned : Reply.decision reply = some decision)
      (completed : decision = { recorded with sequence := decision.sequence })
      (generation : recorded.generation = s.transition_counter + 1)
      (denied : recorded.status ≠ .accepted)
      (fits : (encodeTransition recorded).length ≤ kMaxRecordPayloadBytes)
      (transitions : s'.transitions =
        dropExcess s.config.max_retained_transitions (s.transitions ++ [decision]))
      (same : SameDecision s s') :
    Decides env s request reply s' [⟨.transitionDecision, sequence, encodeTransition recorded⟩]
  /-- The decision was accepted and recorded, but its boundary could not be. -/
  | halved {plan : ContainmentPlan} {recorded : TransitionDecision} (sequence : Sequence)
      (failed : Reply.decision reply = none) (passes : s.Passes env request plan recorded)
      (committable : s.countTransition.Committable env (encodeTransition recorded))
      (fits : (encodeTransition recorded).length ≤ kMaxRecordPayloadBytes)
      (lost : ¬ s.Completes env plan recorded) (transitions : s'.transitions = s.transitions)
      (same : SameDecision s s') :
    Decides env s request reply s' [⟨.transitionDecision, sequence, encodeTransition recorded⟩]
  | accepted {plan : ContainmentPlan} {recorded decision : TransitionDecision}
      (sequence sequence' : Sequence) (returned : Reply.decision reply = some decision)
      (passes : s.Passes env request plan recorded)
      (completed : decision = { recorded with sequence := decision.sequence })
      (fits : (encodeTransition recorded).length ≤ kMaxRecordPayloadBytes ∧
        (encodeBoundaryDecision (boundaryRecord plan recorded)).length ≤ kMaxRecordPayloadBytes)
      (transitions : s'.transitions =
        dropExcess s.config.max_retained_transitions (s.transitions ++ [decision]))
      (boundary : s'.boundary = if recorded.to_released then none else some plan.boundary)
      (boundary_plan : s'.boundary_plan = plan.generation)
      (boundary_plan_digest : s'.boundary_plan_digest = plan.digest) :
    Decides env s request reply s' [⟨.transitionDecision, sequence, encodeTransition recorded⟩,
      ⟨.boundaryDecision, sequence', encodeBoundaryDecision (boundaryRecord plan recorded)⟩]

/-- What passes has the generation that follows the counter. -/
theorem RuntimeState.Passes.generation {env : Env} {s : RuntimeState} {request : TransitionRequest}
    {plan : ContainmentPlan} {decision : TransitionDecision} (h : s.Passes env request plan decision) :
    decision.generation = s.transition_counter + 1 :=
  (checkTransition_ok_explained h.checked).2

/-- A refusal is recorded and retained, or nothing happens. -/
theorem exec_refuseTransition (env : Env) (refusal : Refusal) (s : RuntimeState) :
    (∃ recorded decision : TransitionDecision,
      recorded.generation = refusal.decision.generation ∧ recorded.status = refusal.status ∧
      decision = { recorded with sequence := decision.sequence } ∧
      s.Committable env (encodeTransition recorded) ∧
      exec (refuseTransition env refusal) s = (.ok decision,
        (s.committed .transitionDecision (encodeTransition recorded)).publishRefusal decision)) ∨
      ∃ status, exec (refuseTransition env refusal) s = (.error status, s) := by
  simp only [refuseTransition, exec_bind, exec_get]
  -- the decision is recorded under the sequence before its record, and returned under that of the
  -- record
  generalize hrecorded : ({ refusal.decision with
    status := refusal.status
    code := refusal.code
    explanation := refusal.decision.explanation.add refusal.reason refusal.text
    sequence := s.sequence } : TransitionDecision) = recorded
  rcases exec_commit env .transitionDecision (encodeTransition recorded) s with
    ⟨hc, hcommittable⟩ | ⟨⟨status, hc⟩, -⟩
  · left
    refine ⟨recorded, { recorded with
      sequence := (s.committed .transitionDecision (encodeTransition recorded)).sequence },
      by rw [← hrecorded], by rw [← hrecorded], rfl, hcommittable, ?_⟩
    simp only [hc, exec_modify, exec_pure]
    subst hrecorded
    rfl
  · right
    exact ⟨status, by simp only [hc]⟩

/-- An accepted decision is recorded with its boundary and retained, or recorded alone, or nothing
happens. -/
theorem exec_acceptTransition (env : Env) (plan : ContainmentPlan) (decision : TransitionDecision)
    (s : RuntimeState) :
    (∃ status, exec (acceptTransition env plan decision) s = (.error status, s)) ∨
      s.Committable env (encodeTransition decision) ∧
        (((∃ status, exec (acceptTransition env plan decision) s =
            (.error status, s.committed .transitionDecision (encodeTransition decision))) ∧
          ¬ (s.committed .transitionDecision (encodeTransition decision)).Committable env
            (encodeBoundaryDecision (boundaryRecord plan decision))) ∨
        ((s.committed .transitionDecision (encodeTransition decision)).Committable env
            (encodeBoundaryDecision (boundaryRecord plan decision)) ∧
          ∃ published : TransitionDecision,
            published = { decision with sequence := published.sequence } ∧
            exec (acceptTransition env plan decision) s = (.ok published,
              ((s.committed .transitionDecision (encodeTransition decision)).committed
                .boundaryDecision (encodeBoundaryDecision (boundaryRecord plan decision))).publishBoundary
                  plan published))) := by
  simp only [acceptTransition, exec_bind]
  rcases exec_commit env .transitionDecision (encodeTransition decision) s with
    ⟨hc, hcommittable⟩ | ⟨⟨status, hc⟩, -⟩
  · right
    refine ⟨hcommittable, ?_⟩
    simp only [hc, exec_get]
    generalize hpublished : ({ decision with
      sequence := (s.committed .transitionDecision (encodeTransition decision)).sequence } :
        TransitionDecision) = published
    -- the record of the boundary does not have the sequence of the decision
    have hrecord : boundaryRecord plan published = boundaryRecord plan decision := by
      rw [← hpublished]
      rfl
    rw [hrecord]
    rcases exec_commit env .boundaryDecision (encodeBoundaryDecision (boundaryRecord plan decision))
        (s.committed .transitionDecision (encodeTransition decision)) with
      ⟨hc', hcommittable'⟩ | ⟨⟨status, hc'⟩, hlost⟩
    · right
      refine ⟨hcommittable', published, by rw [← hpublished], ?_⟩
      simp only [hc', exec_modify, exec_pure]
    · left
      exact ⟨⟨status, by simp only [hc']⟩, hlost⟩
  · left
    exact ⟨status, by simp only [hc]⟩

/-- A durable state after a call: what was appended to its store. -/
def AppendsTo (store : DurableStore) (added : List Frame) (s' : RuntimeState) : Prop :=
  ∃ store' ∈ s'.store, store'.disk.snapshot = store.disk.snapshot ∧
    store'.disk.log = store.disk.log ++ added

/-- A state whose transition was counted, and whose authorization may have been fenced. -/
structure Counted (s s₁ : RuntimeState) : Prop where
  config : s₁.config = s.config
  transitions : s₁.transitions = s.transitions
  transition_counter : s₁.transition_counter = s.transition_counter + 1
  store : s₁.store = s.store
  same : SameDecision s s₁

/-- What a refused transition leaves. -/
theorem refuseTransition_decides (env : Env) (request : TransitionRequest) {refusal : Refusal}
    {s s₁ : RuntimeState} {store : DurableStore} (hstore : s.store = some store)
    (hcounted : Counted s s₁) (hdenied : refusal.status ≠ .accepted)
    (hgeneration : refusal.decision.generation = s.transition_counter + 1) :
    ∃ added, Decides env s request
        ((exec (refuseTransition env refusal) s₁).1.map Reply.transition)
        (exec (refuseTransition env refusal) s₁).2 added ∧
      (exec (refuseTransition env refusal) s₁).2.transition_counter = s.transition_counter + 1 ∧
      AppendsTo store added (exec (refuseTransition env refusal) s₁).2 := by
  have hstore₁ : s₁.store = some store := hcounted.store.trans hstore
  obtain ⟨hboundary, hplan, hdigest⟩ := hcounted.same
  rcases exec_refuseTransition env refusal s₁ with
    ⟨recorded, decision, hrecorded, hstatus, hcompleted, hcommittable, hexec⟩ | ⟨status, hexec⟩
  · rw [hexec]
    refine ⟨_, .refused (store.last_sequence + 1) rfl hcompleted (hrecorded.trans hgeneration)
      (hstatus ▸ hdenied) (hcommittable store hstore₁).1 ?_ ⟨hboundary, hplan, hdigest⟩,
      hcounted.transition_counter, store.appended .transitionDecision (encodeTransition recorded),
      ?_, rfl, rfl⟩
    · rw [← hcounted.config, ← hcounted.transitions]
      rfl
    · simp [publishRefusal, evictBoundedTables, committed, hstore₁]
  · rw [hexec]
    exact ⟨[], .unrecorded rfl hcounted.transitions hcounted.same, hcounted.transition_counter,
      store, hstore₁, rfl, by simp⟩

/-- What an accepted transition leaves. -/
theorem acceptTransition_decides (env : Env) {request : TransitionRequest} {plan : ContainmentPlan}
    {decision : TransitionDecision} {s : RuntimeState} {store : DurableStore}
    (hstore : s.store = some store) (hpasses : s.Passes env request plan decision) :
    ∃ added, Decides env s request
        ((exec (acceptTransition env plan decision) s.countTransition).1.map Reply.transition)
        (exec (acceptTransition env plan decision) s.countTransition).2 added ∧
      (exec (acceptTransition env plan decision) s.countTransition).2.transition_counter =
        s.transition_counter + 1 ∧
      AppendsTo store added (exec (acceptTransition env plan decision) s.countTransition).2 := by
  -- of the two records none is written, the decision alone, or both
  rcases exec_acceptTransition env plan decision s.countTransition with ⟨status, hexec⟩ |
    ⟨hcommittable, ⟨⟨status, hexec⟩, hlost⟩ | ⟨hcommittable', published, hpublished, hexec⟩⟩
  · rw [hexec]
    exact ⟨[], .unrecorded rfl rfl ⟨rfl, rfl, rfl⟩, rfl, store, hstore, rfl, by simp⟩
  · rw [hexec]
    exact ⟨_, .halved (store.last_sequence + 1) rfl hpasses hcommittable
      (hcommittable store hstore).1 hlost rfl
      ⟨rfl, rfl, rfl⟩, rfl, store.appended .transitionDecision (encodeTransition decision),
      by simp [committed, countTransition, hstore], rfl, rfl⟩
  · rw [hexec]
    have hstore' : (s.countTransition.committed .transitionDecision
        (encodeTransition decision)).store =
          some (store.appended .transitionDecision (encodeTransition decision)) := by
      simp [committed, countTransition, hstore]
    have hreleased : published.to_released = decision.to_released := by rw [hpublished]
    refine ⟨_, .accepted (store.last_sequence + 1) (store.last_sequence + 1 + 1) rfl hpasses
      hpublished ⟨(hcommittable store hstore).1, (hcommittable' _ hstore').1⟩ rfl ?_ rfl rfl, rfl,
      (store.appended .transitionDecision (encodeTransition decision)).appended .boundaryDecision
        (encodeBoundaryDecision (boundaryRecord plan decision)), ?_, rfl, ?_⟩
    · rw [← hreleased]
      rfl
    · simp [publishBoundary, evictBoundedTables, committed, countTransition, hstore]
    · simp [appended]

/-- What a transition leaves of a durable runtime. -/
theorem transition_decides (env : Env) (request : TransitionRequest) {s : RuntimeState}
    {store : DurableStore} (hstore : s.store = some store) :
    ∃ added, Decides env s request (exec (perform env (.transition request)) s).1
        (exec (perform env (.transition request)) s).2 added ∧
      (exec (perform env (.transition request)) s).2.transition_counter =
        s.transition_counter + 1 ∧
      AppendsTo store added (exec (perform env (.transition request)) s).2 := by
  -- the transition is counted before anything is checked, and its authorization may be fenced
  have hcounted : Counted s s.countTransition := ⟨rfl, rfl, rfl, rfl, rfl, rfl, rfl⟩
  have hfenced : Counted s (s.countTransition.fenceAuthorization request.authorization) :=
    ⟨rfl, rfl, rfl, rfl, rfl, rfl, rfl⟩
  have hunauthorized : ∀ status, (authorizationRefusal status
      (s.countTransition.startDecision request)).status ≠ .accepted := by
    simp [authorizationRefusal]
  rw [perform, exec_map]
  simp only [transition, exec_bind, exec_modify, exec_get, exec_set]
  rcases validateAuthorization_spec s.countTransition env.now_millis request.authorization false with
    ⟨record, hv⟩ | ⟨status, hv | hv⟩
  · simp only [hv]
    cases hcheck : s.countTransition.checkTransition request
        (s.countTransition.startDecision request) with
    | error refusal =>
      simp only
      exact refuseTransition_decides env request hstore hcounted (checkTransition_refusal _ hcheck)
        (checkTransition_error_explained hcheck).2
    | ok checked =>
      obtain ⟨plan, decision⟩ := checked
      simp only
      have hadmitted : s.Admits env request := ⟨by rw [hv]; rfl, by rw [hcheck]; rfl⟩
      exact acceptTransition_decides env hstore ⟨hadmitted, hcheck⟩
  · simp only [hv]
    exact refuseTransition_decides env request hstore hcounted (hunauthorized status) rfl
  · simp only [hv]
    exact refuseTransition_decides env request hstore hfenced (hunauthorized status) rfl

/-- The other calls make no decision; the oldest may no longer be retained. -/
theorem Outcome.undecided {env : Env} {s s' : RuntimeState} {call : Call} {reply : Result Reply}
    (h : Outcome env s call reply s') (hnot : ∀ request, call ≠ .transition request) :
    s'.transitions.IsSuffix s.transitions ∧ s'.transition_counter = s.transition_counter ∧
      Reply.decision reply = none := by
  cases h with
  | transitionFailed | transitionRefused | transitionHalved | transitionAccepted =>
    exact absurd rfl (hnot _)
  | detected | planned | submitted => exact ⟨List.drop_suffix _ _, rfl, rfl⟩
  | ackMismatched _ _ _ taken =>
    rcases taken with rfl | ⟨-, rfl⟩ <;> exact ⟨List.suffix_refl _, rfl, rfl⟩
  | verified =>
    rw [adoptVerified_eq]
    exact ⟨List.suffix_refl _, rfl, rfl⟩
  | _ => exact ⟨List.suffix_refl _, rfl, rfl⟩

/-- They record none either, and no boundary. -/
theorem CallRecord.undecided {env : Env} {s : RuntimeState} {reply : Result Reply} {call : Call}
    {type : RecordType} {payload : Bytes} (h : CallRecord env s reply call type payload)
    (hnot : ∀ request, call ≠ .transition request) :
    type ≠ .transitionDecision ∧ type ≠ .boundaryDecision := by
  cases h with
  | transition | boundary => exact absurd rfl (hnot _)
  | _ => simp

/-! ## Runs -/

/-- What durable runtimes have decided: the decisions they returned, and those that the last one
retains. -/
structure Decided where
  returned : List TransitionDecision := []
  table : List TransitionDecision := []

/-- Note what a step of a durable runtime returns and retains. -/
def noteDecided (sys : System) (event : Event) (noted : Decided) : Decided :=
  (sys.next event).runtime.elim noted fun s =>
    if s.store.isSome then
      ⟨noted.returned ++ (Reply.decision (sys.reply event)).toList, s.transitions⟩
    else noted

/-- A decision that was returned and retained is found by an open as it was returned, unless the
runtime that opens retains less than the last one did; and a decision has a generation that none was
returned with before. -/
def LineageSurvives (p : System × Decided) : Event → Prop
  | .open_ config env boot => p.1.runtime = none →
    ∀ s ∈ (openRuntime config env boot p.1.disk).1.toOption, s.store.isSome →
      ∀ d ∈ p.2.returned, d ∈ p.2.table →
        (∀ found, s.transitionByGeneration d.generation = .ok found → found = d) ∧
          (p.2.table.length ≤ config.max_retained_transitions →
            s.transitionByGeneration d.generation = .ok d)
  | .call env call => ∀ s ∈ p.1.runtime, s.store.isSome →
    ∀ d ∈ Reply.decision (exec (perform env call) s).1, ∀ earlier ∈ p.2.returned,
      earlier.generation ≠ d.generation
  | .crash _ => True

/-- A durable runtime opens a store whose log has no decision, if one that was returned is retained,
and a transition finds a counter below the limit of 64 bits. -/
def DecisionsSaved (p : System × Decided) : Event → Prop
  | .open_ config env boot => p.1.runtime = none → config.persist = true →
    (openRuntime config env boot p.1.disk).1.isOk = true →
      (∃ d ∈ p.2.returned, d ∈ p.2.table) →
        ∀ frame ∈ p.1.disk.log, frame.type ≠ .transitionDecision
  | .call _ (.transition _) => ∀ s ∈ p.1.runtime, s.store.isSome →
    s.transition_counter < s.transition_counter + 1
  | .call _ _ | .crash _ => True

instance DecisionsSaved.instDecidable (p : System × Decided) :
    (event : Event) → Decidable (DecisionsSaved p event)
  | .open_ config env boot =>
    inferInstanceAs (Decidable (p.1.runtime = none → config.persist = true →
      (openRuntime config env boot p.1.disk).1.isOk = true →
        (∃ d ∈ p.2.returned, d ∈ p.2.table) →
          ∀ frame ∈ p.1.disk.log, frame.type ≠ .transitionDecision))
  | .call _ (.transition _) =>
    inferInstanceAs (Decidable (∀ s ∈ p.1.runtime, s.store.isSome →
      s.transition_counter < s.transition_counter + 1))
  | .call _ (.applyTopology _) | .call _ (.applyPolicy _) | .call _ (.recordDetection _)
  | .call _ .authorize | .call _ (.plan _) | .call _ (.submitApply _ _ _) | .call _ (.acknowledge _)
  | .call _ (.verifyEffect _) | .call _ .checkpoint | .crash _ => inferInstanceAs (Decidable True)

/-- What the live durable runtime has of the decisions, beside what its files describe. -/
structure LiveLineage (disk : Disk) (noted : Decided) (s : RuntimeState) : Prop where
  table : s.transitions = noted.table
  numbered : s.Numbered
  returned : ∀ d ∈ noted.returned, d.generation ≤ s.transition_counter
  ahead : ∀ t, Describes disk t → t.transition_counter ≤ s.transition_counter

/-- What the files say of the decisions that were noted. -/
structure ToldLineage (disk : Disk) (noted : Decided) : Prop where
  numbered : ∀ s, Describes disk s → s.Numbered
  returned : ∀ s, Describes disk s → ∀ d ∈ noted.returned, d.generation ≤ s.transition_counter
  /-- A log without decisions leaves those of the snapshot. -/
  saved : (∀ frame ∈ disk.log, frame.type ≠ .transitionDecision) →
    ∀ s, Describes disk s → noted.table.IsSuffix s.transitions

/-- What keeps the lineage. -/
structure DecisionsKept (p : System × Decided) : Prop where
  sequenced : Sequenced p.1
  told : ToldLineage p.1.disk p.2
  live : ∀ s ∈ p.1.runtime, s.store.isSome → LiveLineage p.1.disk p.2 s

/-- Records of no decision leave what is told. -/
theorem ToldLineage.append {disk disk' : Disk} {noted : Decided} {added : List Frame}
    (h : ToldLineage disk noted) (hsnapshot : disk'.snapshot = disk.snapshot)
    (hlog : disk'.log = disk.log ++ added)
    (hquiet : ∀ frame ∈ added, frame.type ≠ .transitionDecision) : ToldLineage disk' noted := by
  have hbefore : ∀ s', Describes disk' s' → ∃ s, Describes disk s ∧ SameLineage s s' := by
    intro s' hs'
    obtain ⟨s, hs, hreplay⟩ := hs'.append hsnapshot hlog
    exact ⟨s, hs, replay_sameLineage hquiet hreplay⟩
  refine ⟨fun s' hs' => ?_, fun s' hs' d hd => ?_, fun hlog' s' hs' => ?_⟩
  · obtain ⟨s, hs, hsame⟩ := hbefore s' hs'
    exact hsame.numbered (h.numbered s hs)
  · obtain ⟨s, hs, hsame⟩ := hbefore s' hs'
    rw [hsame.transition_counter]
    exact h.returned s hs d hd
  · obtain ⟨s, hs, hsame⟩ := hbefore s' hs'
    rw [hsame.transitions]
    refine h.saved (fun frame hframe => hlog' frame ?_) s hs
    rw [hlog]
    exact List.mem_append_left _ hframe

/-- Files with the same snapshot and the same records tell the same. -/
theorem ToldLineage.congr {disk disk' : Disk} {noted : Decided} (h : ToldLineage disk noted)
    (hsnapshot : disk'.snapshot = disk.snapshot) (hlog : disk'.log = disk.log) :
    ToldLineage disk' noted :=
  h.append hsnapshot (hlog.trans (List.append_nil _).symm) (by simp)

/-- Retaining fewer decisions is told as well. -/
theorem ToldLineage.retain {disk : Disk} {noted : Decided} (h : ToldLineage disk noted)
    {table : List TransitionDecision} (hsuffix : table.IsSuffix noted.table) :
    ToldLineage disk ⟨noted.returned, table⟩ :=
  ⟨h.numbered, h.returned, fun hquiet s hs => hsuffix.trans (h.saved hquiet s hs)⟩

/-- The decision of a transition goes on with what is told. -/
theorem ToldLineage.decide {disk disk' : Disk} {noted : Decided} {s : RuntimeState}
    {recorded : TransitionDecision} {sequence : Sequence} {rest : List Frame}
    (h : ToldLineage disk noted) (hlive : LiveLineage disk noted s)
    (hbelow : s.transition_counter < s.transition_counter + 1)
    (hgeneration : recorded.generation = s.transition_counter + 1)
    (hfits : (encodeTransition recorded).length ≤ kMaxRecordPayloadBytes)
    (hquiet : ∀ frame ∈ rest, frame.type ≠ .transitionDecision)
    (hsnapshot : disk'.snapshot = disk.snapshot) (hlog : disk'.log = disk.log ++
      ⟨.transitionDecision, sequence, encodeTransition recorded⟩ :: rest)
    (noted' : Decided) (hreturned : ∀ d ∈ noted'.returned, d.generation ≤ s.transition_counter + 1) :
    ToldLineage disk' noted' ∧ ∀ t, Describes disk' t → t.transition_counter = s.transition_counter + 1 := by
  -- replay finds the record of the decision after everything that it has numbered
  have hafter : ∀ s', Describes disk' s' → s'.Numbered ∧
      s'.transition_counter = s.transition_counter + 1 := by
    intro s' hs'
    obtain ⟨t, ht, hreplay⟩ := hs'.append hsnapshot hlog
    rw [List.foldlM_cons, bind_eq_ok] at hreplay
    obtain ⟨t₁, hframe, hreplay⟩ := hreplay
    have hsame := replay_sameLineage hquiet hreplay
    rcases (applyReplayedFrame_ok hframe).lineage with ⟨htype, -⟩ | ⟨-, d, hdecoded, rfl⟩
    · exact absurd rfl htype
    · obtain rfl := decodeTransition_recovers (hfits.trans_lt (by decide)) hdecoded
      have hlater : t.transition_counter < d.generation := by
        rw [hgeneration]
        exact UInt64.lt_of_le_of_lt (hlive.ahead t ht) hbelow
      obtain ⟨hnumbered, hcounter⟩ := (h.numbered t ht).replayTransition hlater
      exact ⟨hsame.numbered hnumbered, hsame.transition_counter.trans (hcounter.trans hgeneration)⟩
  refine ⟨⟨fun s' hs' => (hafter s' hs').1, fun s' hs' d hd => ?_, fun hundecided => ?_⟩,
    fun t ht => (hafter t ht).2⟩
  · rw [(hafter s' hs').2]
    exact hreturned d hd
  -- the log has a decision, so nothing is said of it as a log without one
  · refine absurd rfl (hundecided ⟨.transitionDecision, sequence, encodeTransition recorded⟩ ?_)
    rw [hlog]
    exact List.mem_append_right _ List.mem_cons_self

/-- A snapshot tells what the state that it saves retains. -/
theorem toldLineage_saved {disk : Disk} {s : RuntimeState} {noted : Decided} {sequence : Sequence}
    (h : LiveLineage disk noted s)
    (hfits : (encodeDurableState s.durable).length ≤ kMaxSnapshotPayloadBytes) :
    ToldLineage ⟨some (sequence, encodeDurableState s.durable), [], 0⟩ noted ∧
      ∀ t, Describes ⟨some (sequence, encodeDurableState s.durable), [], 0⟩ t → SameLineage s t := by
  have hsame : ∀ t, Describes ⟨some (sequence, encodeDurableState s.durable), [], 0⟩ t →
      SameLineage s t := by
    intro t ht
    obtain ⟨config, store, topology, policy, evidence, boundary, -, -, -, -, rfl⟩ :=
      describes_saved rfl rfl hfits ht
    exact ⟨rfl, rfl⟩
  refine ⟨⟨fun t ht => (hsame t ht).numbered h.numbered, fun t ht d hd => ?_, fun _ t ht => ?_⟩, hsame⟩
  · rw [(hsame t ht).transition_counter]
    exact h.returned d hd
  · rw [(hsame t ht).transitions, h.table]

/-- What an open that succeeds recovers of the decisions. -/
structure Recovered (config : RuntimeConfig) (disk : Disk) (s₀ s : RuntimeState) : Prop where
  described : Describes disk s₀
  transitions : s.transitions = dropExcess config.max_retained_transitions s₀.transitions
  transition_counter : s.transition_counter = s₀.transition_counter

/-- A durable runtime that was recovered and started retains the last of what the files describe. -/
theorem Started.recovered {config : RuntimeConfig} {disk disk' : Disk} {boot : BootIdentity}
    {s₀ s : RuntimeState} (hrecover : recover config disk = (.ok s₀, disk'))
    (hdescribed : Describes disk s₀) (hstarted : Started (s₀.incarnate boot) s) :
    Recovered config disk s₀ s := by
  have hconfig : s₀.config = config := recover_config hrecover
  refine ⟨hdescribed, ?_, hstarted.transition_counter⟩
  rw [hstarted.same.transitions, ← hconfig]
  rfl

/-- A step that leaves no durable runtime notes nothing. -/
theorem noteDecided_volatile {sys : System} {event : Event} {noted : Decided}
    (h : ∀ s ∈ (sys.next event).runtime, s.store = none) : noteDecided sys event noted = noted := by
  unfold noteDecided
  cases hrun : (sys.next event).runtime with
  | none => rfl
  | some s =>
    have hnone : s.store = none := h s hrun
    simp [hnone]

/-- A step that leaves a durable runtime notes what it retains. -/
theorem noteDecided_durable {sys : System} {event : Event} {noted : Decided} {s : RuntimeState}
    (hrun : (sys.next event).runtime = some s) (hdurable : s.store.isSome) :
    noteDecided sys event noted =
      ⟨noted.returned ++ (Reply.decision (sys.reply event)).toList, s.transitions⟩ := by
  unfold noteDecided
  simp [hrun, hdurable]

/-- An open replies with no decision. -/
theorem reply_open_decision (sys : System) (config : RuntimeConfig) (env : Env)
    (boot : BootIdentity) : Reply.decision (sys.reply (.open_ config env boot)) = none := by
  rw [System.reply, System.step]
  cases sys.runtime with
  | some s => rfl
  | none => rcases openRuntime config env boot sys.disk with ⟨status | s, disk⟩ <;> rfl

/-- Opening a store keeps the lineage. -/
theorem DecisionsKept.open_ {sys : System} {noted : Decided} (h : DecisionsKept (sys, noted))
    {config : RuntimeConfig} {env : Env} {boot : BootIdentity} :
    DecisionsKept (sys.next (.open_ config env boot),
      noteDecided sys (.open_ config env boot) noted) := by
  have hsequenced := h.sequenced.next (.open_ config env boot)
  have hreply := reply_open_decision sys config env boot
  cases hrun : sys.runtime with
  | some s =>
    have hnext : (sys.next (.open_ config env boot)).runtime = some s := by
      rw [next_open_live hrun, hrun]
    by_cases hdurable : s.store.isSome
    · rw [noteDecided_durable hnext hdurable, hreply, Option.toList_none, List.append_nil,
        next_open_live hrun, (h.live s hrun hdurable).table]
      exact h
    · have hvolatile : ∀ t ∈ (sys.next (.open_ config env boot)).runtime, t.store = none := by
        intro t ht
        obtain rfl := Option.some.inj (hnext.symm.trans ht)
        simpa using hdurable
      rw [noteDecided_volatile hvolatile, next_open_live hrun]
      exact h
  | none =>
    -- a startup appends records of no decision, so the store tells what it told
    obtain ⟨hsnapshot, hwrites⟩ := h.sequenced.opens hrun config env boot
    rcases hwrites with ⟨hlog, hvolatile⟩ |
      ⟨s₀, disk₀, added, hrecover, -, hdescribed, hadded, hlog, hstarted⟩
    · rw [noteDecided_volatile hvolatile]
      refine ⟨hsequenced, h.told.congr hsnapshot hlog, fun s hs hdurable => ?_⟩
      exact absurd hdurable (by simp [hvolatile s hs])
    · have htold := h.told.append hsnapshot hlog fun frame hmem => (hadded.undecided frame hmem).1
      cases hnext : (sys.next (.open_ config env boot)).runtime with
      | none =>
        rw [noteDecided_volatile (by simp [hnext])]
        exact ⟨hsequenced, htold, fun s hs => absurd hs (by simp [hnext])⟩
      | some s =>
        obtain ⟨hstart, hdurable⟩ := hstarted s hnext
        have hrecovered := hstart.recovered hrecover hdescribed
        have hsame : ∀ t, Describes (sys.next (.open_ config env boot)).disk t →
            SameLineage s₀ t := by
          intro t ht
          obtain ⟨s₁, hs₁, hreplay⟩ := ht.append hsnapshot hlog
          have hbefore := hdescribed.sameLineage hs₁
          have hafter := replay_sameLineage (fun frame hmem => (hadded.undecided frame hmem).1) hreplay
          exact ⟨hafter.transitions.trans hbefore.transitions,
            hafter.transition_counter.trans hbefore.transition_counter⟩
        -- an incarnation starts with its tables cut down to their bounds
        have hsuffix : s.transitions.IsSuffix s₀.transitions := by
          rw [hrecovered.transitions]
          exact List.drop_suffix _ _
        rw [noteDecided_durable hnext hdurable, hreply, Option.toList_none, List.append_nil]
        refine ⟨hsequenced, ⟨htold.numbered, htold.returned, fun _ t ht => ?_⟩, fun t ht _ => ?_⟩
        · rw [(hsame t ht).transitions]
          exact hsuffix
        · obtain rfl := Option.some.inj (hnext.symm.trans ht)
          refine ⟨rfl, (h.told.numbered s₀ hdescribed).sublist hsuffix.sublist
            hrecovered.transition_counter, fun d hd => ?_, fun t ht => ?_⟩
          · rw [hrecovered.transition_counter]
            exact h.told.returned s₀ hdescribed d hd
          · rw [hrecovered.transition_counter, (hsame t ht).transition_counter]
            exact UInt64.le_refl _

/-- An open finds the decisions that were saved. -/
theorem DecisionsKept.opened {sys : System} {noted : Decided} (h : DecisionsKept (sys, noted))
    {config : RuntimeConfig} {env : Env} {boot : BootIdentity}
    (hsaved : DecisionsSaved (sys, noted) (.open_ config env boot)) :
    LineageSurvives (sys, noted) (.open_ config env boot) := by
  intro hrun s hs hdurable d hreturned hretained
  have hopen := mem_toOption.mp hs
  obtain ⟨-, hwrites⟩ := @openRuntime_writes config env boot sys.disk h.sequenced.inOrder
  rcases hwrites with ⟨-, hvolatile⟩ |
    ⟨s₀, disk₀, added, hrecover, hdurable₀, hdescribed, -, -, hstarted⟩
  · exact absurd hdurable (by simp [hvolatile s hopen])
  have hrecovered := (hstarted s hopen).recovered hrecover hdescribed
  have hpersist : config.persist = true := by
    rcases recover_ok hrecover with ⟨hpersist, -⟩ | ⟨-, rfl, -⟩
    · exact hpersist
    · exact absurd hdurable₀ (by simp [RuntimeState.initial])
  have hquiet := hsaved hrun hpersist (by rw [hopen]; rfl) ⟨d, hreturned, hretained⟩
  have hsuffix := h.told.saved hquiet s₀ hdescribed
  have hnumbered := h.told.numbered s₀ hdescribed
  have hkept : s.transitions.IsSuffix s₀.transitions := by
    rw [hrecovered.transitions]
    exact List.drop_suffix _ _
  have hd : d ∈ s₀.transitions := hsuffix.subset hretained
  refine ⟨fun found hfound => ?_, fun (hfits : noted.table.length ≤ _) => ?_⟩
  · obtain ⟨hmem, hgeneration⟩ := transitionByGeneration_ok hfound
    exact hnumbered.eq_of_generation (hkept.subset hmem) hd hgeneration
  · -- the decisions that were retained are the last ones, and so are those that are retained now
    have hlength : noted.table.length ≤ s.transitions.length := by
      have hle : noted.table.length ≤ s₀.transitions.length := hsuffix.length_le
      rw [hrecovered.transitions, dropExcess, List.length_drop]
      omega
    have hmem : d ∈ s.transitions :=
      (List.suffix_of_suffix_length_le hsuffix hkept hlength).subset hretained
    have hs : s.Numbered := hnumbered.sublist hkept.sublist hrecovered.transition_counter
    exact hs.transitionByGeneration_eq hmem

/-- A transition that retains no decision leaves the others. -/
theorem LiveLineage.keep {disk disk' : Disk} {noted : Decided} {s s' : RuntimeState}
    (h : LiveLineage disk noted s) (hbelow : s.transition_counter < s.transition_counter + 1)
    (hcounter : s'.transition_counter = s.transition_counter + 1)
    (htransitions : s'.transitions = s.transitions)
    (hahead : ∀ t, Describes disk' t → t.transition_counter ≤ s.transition_counter + 1) :
    LiveLineage disk' ⟨noted.returned, s'.transitions⟩ s' := by
  have hle : s.transition_counter ≤ s'.transition_counter := by
    rw [hcounter]
    exact UInt64.le_of_lt hbelow
  refine ⟨rfl, ⟨?_, fun d hd => ?_⟩, fun d hd => ?_, fun t ht => ?_⟩
  · rw [htransitions]
    exact h.numbered.ascending
  · rw [htransitions] at hd
    exact UInt64.le_trans (h.numbered.counted d hd) hle
  · exact UInt64.le_trans (h.returned d hd) hle
  · rw [hcounter]
    exact hahead t ht

/-- A transition that retains its decision goes on with the generations. -/
theorem LiveLineage.add {disk disk' : Disk} {noted : Decided} {s s' : RuntimeState}
    {decision : TransitionDecision} {bound : ℕ} (h : LiveLineage disk noted s)
    (hbelow : s.transition_counter < s.transition_counter + 1)
    (hcounter : s'.transition_counter = s.transition_counter + 1)
    (hdecision : decision.generation = s.transition_counter + 1)
    (htransitions : s'.transitions = dropExcess bound (s.transitions ++ [decision]))
    (hahead : ∀ t, Describes disk' t → t.transition_counter ≤ s.transition_counter + 1) :
    LiveLineage disk' ⟨noted.returned ++ [decision], s'.transitions⟩ s' := by
  have hle : s.transition_counter ≤ s'.transition_counter := by
    rw [hcounter]
    exact UInt64.le_of_lt hbelow
  -- the counter has moved to the generation of the new decision
  have hlast : decision.generation ≤ s'.transition_counter := by
    rw [hdecision, hcounter]
    exact UInt64.le_refl _
  refine ⟨rfl, ⟨?_, fun d hd => ?_⟩, fun d hd => ?_, fun t ht => ?_⟩
  · rw [htransitions]
    exact (h.numbered.concat (by rw [hdecision]; exact hbelow)).sublist (dropExcess_sublist _ _)
  · rw [htransitions] at hd
    rcases List.mem_append.mp (mem_of_mem_dropExcess hd) with hold | hnew
    · exact UInt64.le_trans (h.numbered.counted d hold) hle
    · rw [List.mem_singleton.mp hnew]
      exact hlast
  · rcases List.mem_append.mp hd with hold | hnew
    · exact UInt64.le_trans (h.returned d hold) hle
    · rw [List.mem_singleton.mp hnew]
      exact hlast
  · rw [hcounter]
    exact hahead t ht

/-- A transition of a durable runtime goes on with the generations. -/
theorem LiveLineage.transition {env : Env} {disk disk' : Disk} {noted : Decided}
    {request : TransitionRequest} {s s' : RuntimeState} {reply : Result Reply} {added : List Frame}
    (hlive : LiveLineage disk noted s) (htold : ToldLineage disk noted)
    (hbelow : s.transition_counter < s.transition_counter + 1)
    (hdecides : Decides env s request reply s' added)
    (hcounter : s'.transition_counter = s.transition_counter + 1)
    (hsnapshot : disk'.snapshot = disk.snapshot) (hlog : disk'.log = disk.log ++ added) :
    ToldLineage disk' ⟨noted.returned ++ (Reply.decision reply).toList, s'.transitions⟩ ∧
      LiveLineage disk' ⟨noted.returned ++ (Reply.decision reply).toList, s'.transitions⟩ s' := by
  have hpassed : ∀ d ∈ noted.returned, d.generation ≤ s.transition_counter + 1 := fun d hd =>
    UInt64.le_trans (hlive.returned d hd) (UInt64.le_of_lt hbelow)
  have hadded : ∀ decision : TransitionDecision, decision.generation = s.transition_counter + 1 →
      ∀ d ∈ noted.returned ++ [decision], d.generation ≤ s.transition_counter + 1 := by
    intro decision hdecision d hd
    rcases List.mem_append.mp hd with hold | hnew
    · exact hpassed d hold
    · rw [List.mem_singleton.mp hnew, hdecision]
      exact UInt64.le_refl _
  -- what was recorded says what the store tells, what was returned what the table has
  cases hdecides with
  | unrecorded failed transitions =>
    rw [failed, Option.toList_none, List.append_nil]
    have hsame : ∀ t, Describes disk' t → Describes disk t := fun t ht =>
      (describes_congr hsnapshot (hlog.trans (List.append_nil _))).mp ht
    refine ⟨?_, hlive.keep hbelow hcounter transitions fun t ht =>
      UInt64.le_trans (hlive.ahead t (hsame t ht)) (UInt64.le_of_lt hbelow)⟩
    rw [transitions, hlive.table]
    exact htold.append hsnapshot hlog (by simp)
  | halved sequence failed passes committable fits lost transitions =>
    rw [failed, Option.toList_none, List.append_nil]
    obtain ⟨hdisk, hahead⟩ := htold.decide hlive hbelow passes.generation fits (by simp) hsnapshot
      hlog ⟨noted.returned, s'.transitions⟩ hpassed
    exact ⟨hdisk, hlive.keep hbelow hcounter transitions fun t ht =>
      le_of_eq_of_le (hahead t ht) (UInt64.le_refl _)⟩
  | @refused recorded decision sequence returned completed generation denied fits transitions =>
    rw [returned, Option.toList_some]
    have hdecision : decision.generation = s.transition_counter + 1 := by
      rw [completed]
      exact generation
    obtain ⟨hdisk, hahead⟩ := htold.decide hlive hbelow generation fits (by simp) hsnapshot hlog
      ⟨noted.returned ++ [decision], s'.transitions⟩ (hadded decision hdecision)
    exact ⟨hdisk, hlive.add hbelow hcounter hdecision transitions fun t ht =>
      le_of_eq_of_le (hahead t ht) (UInt64.le_refl _)⟩
  | @accepted plan recorded decision sequence sequence' returned passes completed fits transitions =>
    rw [returned, Option.toList_some]
    have hdecision : decision.generation = s.transition_counter + 1 := by
      rw [completed]
      exact passes.generation
    obtain ⟨hdisk, hahead⟩ := htold.decide hlive hbelow passes.generation fits.1 (by simp) hsnapshot
      hlog ⟨noted.returned ++ [decision], s'.transitions⟩ (hadded decision hdecision)
    exact ⟨hdisk, hlive.add hbelow hcounter hdecision transitions fun t ht =>
      le_of_eq_of_le (hahead t ht) (UInt64.le_refl _)⟩

/-- Another call of a durable runtime leaves the generations. -/
theorem LiveLineage.undecided {env : Env} {noted : Decided} {s s' : RuntimeState} {call : Call}
    {reply : Result Reply} {store store' : DurableStore} (hlive : LiveLineage store.disk noted s)
    (htold : ToldLineage store.disk noted) (ho : Outcome env s call reply s')
    (hnot : ∀ request, call ≠ .transition request) (hstore : s.store = some store)
    (hstore' : s'.store = some store') :
    ToldLineage store'.disk ⟨noted.returned ++ (Reply.decision reply).toList, s'.transitions⟩ ∧
      LiveLineage store'.disk ⟨noted.returned ++ (Reply.decision reply).toList, s'.transitions⟩
        s' := by
  obtain ⟨hsuffix, hcounter, hreply⟩ := ho.undecided hnot
  have hretained : s'.transitions.IsSuffix noted.table := hlive.table ▸ hsuffix
  have hnumbered : s'.Numbered := hlive.numbered.sublist hsuffix.sublist hcounter
  have hfiles : ToldLineage store'.disk noted ∧
      ∀ t, Describes store'.disk t → t.transition_counter ≤ s.transition_counter := by
    -- the call appends records of no decision, or a checkpoint saves the state as it is
    rcases ho.grown with hgrown | ⟨-, before, after, hbefore, hafter, hsaved⟩
    · rw [hstore, hstore'] at hgrown
      obtain ⟨hsnapshot, -, added, hlog, hadded⟩ := hgrown.disk
      have hquiet : ∀ frame ∈ added, frame.type ≠ .transitionDecision := fun frame hframe =>
        ((hadded frame hframe).undecided hnot).1
      refine ⟨htold.append hsnapshot hlog hquiet, fun t ht => ?_⟩
      obtain ⟨t₁, ht₁, hreplay⟩ := ht.append hsnapshot hlog
      rw [(replay_sameLineage hquiet hreplay).transition_counter]
      exact hlive.ahead t₁ ht₁
    · obtain rfl : store = before := Option.some.inj (hstore.symm.trans hbefore)
      obtain rfl : store' = after := Option.some.inj (hstore'.symm.trans hafter)
      rcases hsaved with rfl | ⟨rfl, hfits⟩
      · exact ⟨htold, hlive.ahead⟩
      · obtain ⟨htold', hsame⟩ := toldLineage_saved hlive hfits
        refine ⟨htold', fun t ht => ?_⟩
        rw [(hsame t ht).transition_counter]
        exact UInt64.le_refl _
  rw [hreply, Option.toList_none, List.append_nil]
  refine ⟨hfiles.1.retain hretained, rfl, hnumbered, ?_, ?_⟩
  · rw [hcounter]
    exact hlive.returned
  · rw [hcounter]
    exact hfiles.2

/-- A call keeps the lineage. -/
theorem DecisionsKept.call {sys : System} {noted : Decided} (h : DecisionsKept (sys, noted))
    {env : Env} {call : Call} (hbelow : DecisionsSaved (sys, noted) (.call env call)) :
    DecisionsKept (sys.next (.call env call), noteDecided sys (.call env call) noted) := by
  have hsequenced := h.sequenced.next (.call env call)
  cases hrun : sys.runtime with
  | none =>
    rw [noteDecided_volatile (by simp [next_call_closed hrun, hrun]), next_call_closed hrun]
    exact h
  | some s =>
    have hnext := runtime_call hrun env call
    -- a runtime without a store leaves the files alone
    rcases h.sequenced.synced.calls hrun env call with ⟨-, hnone, hfiles⟩ |
      ⟨store, store', hstore, hdisk, hstore', hfiles, -⟩
    · have hvolatile : ∀ t ∈ (sys.next (.call env call)).runtime, t.store = none := by
        intro t ht
        obtain rfl := Option.some.inj (hnext.symm.trans ht)
        exact hnone
      rw [noteDecided_volatile hvolatile]
      refine ⟨hsequenced, hfiles ▸ h.told, fun t ht hdurable => ?_⟩
      exact absurd hdurable (by simp [hvolatile t ht])
    · have hdurable : s.store.isSome := by simp [hstore]
      have hlive := h.live s hrun hdurable
      have htold := h.told
      rw [← hdisk] at hlive htold
      rw [noteDecided_durable hnext (by simp [hstore']), reply_call hrun]
      have hkept : ToldLineage store'.disk ⟨noted.returned ++
            (Reply.decision (exec (perform env call) s).1).toList,
            (exec (perform env call) s).2.transitions⟩ ∧
          LiveLineage store'.disk ⟨noted.returned ++
            (Reply.decision (exec (perform env call) s).1).toList,
            (exec (perform env call) s).2.transitions⟩ (exec (perform env call) s).2 := by
        by_cases htransition : ∃ request, call = .transition request
        · obtain ⟨request, rfl⟩ := htransition
          obtain ⟨added, hdecides, hcounter, store'', hstore'', hsnapshot, hlog⟩ :=
            transition_decides env request hstore
          obtain rfl := Option.some.inj (hstore'.symm.trans hstore'')
          exact hlive.transition htold (hbelow s hrun hdurable) hdecides hcounter hsnapshot hlog
        · exact hlive.undecided htold (perform_outcome env s call)
            (fun request heq => htransition ⟨request, heq⟩) hstore hstore'
      refine ⟨hsequenced, hfiles ▸ hkept.1, fun t ht _ => ?_⟩
      obtain rfl := Option.some.inj (hnext.symm.trans ht)
      exact hfiles ▸ hkept.2

/-- A transition decides under a generation that is new. -/
theorem DecisionsKept.decided {sys : System} {noted : Decided} (h : DecisionsKept (sys, noted)) {env : Env}
    {call : Call} (hbelow : DecisionsSaved (sys, noted) (.call env call)) :
    LineageSurvives (sys, noted) (.call env call) := by
  intro s hrun hdurable d hd earlier hearlier
  obtain ⟨store, hstore⟩ := Option.isSome_iff_exists.mp hdurable
  by_cases htransition : ∃ request, call = .transition request
  · obtain ⟨request, rfl⟩ := htransition
    obtain ⟨added, hdecides, -⟩ := transition_decides env request hstore
    have hgeneration : d.generation = s.transition_counter + 1 := by
      cases hdecides with
      | unrecorded failed | halved sequence failed =>
        rw [failed] at hd
        exact absurd hd (by simp)
      | refused sequence returned completed generation =>
        obtain rfl := Option.some.inj (returned.symm.trans hd)
        rw [completed]
        exact generation
      | accepted sequence sequence' returned passes completed =>
        obtain rfl := Option.some.inj (returned.symm.trans hd)
        rw [completed]
        exact passes.generation
    -- what was returned is at most the counter, and a new decision is numbered past it
    have hlater : earlier.generation < d.generation := by
      rw [hgeneration]
      exact UInt64.lt_of_le_of_lt ((h.live s hrun hdurable).returned earlier hearlier)
        (hbelow s hrun hdurable)
    exact UInt64.ne_of_lt hlater
  · obtain ⟨-, -, hnone⟩ := (perform_outcome env s call).undecided fun request heq =>
      htransition ⟨request, heq⟩
    rw [hnone] at hd
    exact absurd hd (by simp)

/-- A process that stops keeps the lineage. -/
theorem DecisionsKept.crash {sys : System} {noted : Decided} (h : DecisionsKept (sys, noted))
    (torn_bytes : ℕ) : DecisionsKept (sys.next (.crash torn_bytes), noted) := by
  have hsequenced := h.sequenced.next (.crash torn_bytes)
  rw [next_crash] at hsequenced ⊢
  exact ⟨hsequenced, h.told.congr (diskAfterCrash_snapshot sys torn_bytes)
    (diskAfterCrash_log sys torn_bytes), fun s hs => absurd hs (by simp)⟩

/-- In every run in which an open finds the decisions that are retained in its snapshot, the lineage
survives. -/
theorem lineage_survives {events : List Event}
    (h : Runs.Along (Runs.observe System.next noteDecided) DecisionsSaved ({}, {}) events) :
    Runs.Along (Runs.observe System.next noteDecided) LineageSurvives ({}, {}) events := by
  have hstart : DecisionsKept ({}, {}) := by
    have hempty : ∀ s, Describes {} s → s.transitions = [] := by
      intro s hs
      obtain ⟨config, store, rfl⟩ := describes_empty hs
      rfl
    refine ⟨.start, ⟨fun s hs => ⟨?_, ?_⟩, fun _ _ => by simp, fun _ s hs => ?_⟩,
      fun s hs => absurd hs (by simp)⟩
    · rw [hempty s hs]
      exact List.Pairwise.nil
    · rw [hempty s hs]
      simp
    · rw [hempty s hs]
  refine Runs.Along.of_invariant (I := DecisionsKept) (fun p event hkept hsaved => ?_) hstart h
  obtain ⟨sys, noted⟩ := p
  cases event with
  | open_ config env boot => exact ⟨hkept.open_, hkept.opened hsaved⟩
  | call env call => exact ⟨hkept.call hsaved, hkept.decided hsaved⟩
  | crash torn_bytes => exact ⟨hkept.crash torn_bytes, trivial⟩

namespace Sample

/-- A transition under an authorization that was not issued is refused. -/
def refused : List Event :=
  [opens 1, does (.transition ⟨.expand, 1, Digest.zero, 0, true, 7⟩)]

/-- A later transition is accepted. -/
def accepted : List Event := refused ++ planned.tail |> thenTransition .expand 1 none 1

end Sample

/-- A refusal and an accepted decision are saved by a checkpoint, recovered, and gone on with. -/
theorem lineage_survives_saved :
    Runs.Along (Runs.observe System.next noteDecided) LineageSurvives ({}, {})
      (Sample.accepted ++ [Sample.does .checkpoint, .crash 0, Sample.opens 2] ++
        Sample.refused.tail) :=
  lineage_survives (by decide +kernel)

/-- A refusal that is recovered from the log has the sequence from before its commit, in a run in
which every step succeeds. -/
theorem lineage_altered :
    Runs.Along System.next (fun sys event => (sys.reply event).isOk = true) {}
        (Sample.refused ++ [.crash 0, Sample.opens 2]) ∧
      ¬ Runs.Along (Runs.observe System.next noteDecided) LineageSurvives ({}, {})
        (Sample.refused ++ [.crash 0, Sample.opens 2]) := by
  refine ⟨by decide +kernel, fun h => ?_⟩
  obtain ⟨p, hp⟩ : ∃ p, Runs.exec (Runs.observe System.next noteDecided) ({}, {})
      (Sample.refused ++ [.crash 0]) = p := ⟨_, rfl⟩
  have hsplit : Sample.refused ++ [.crash 0, Sample.opens 2] =
      (Sample.refused ++ [.crash 0]) ++ [Sample.opens 2] := by simp
  rw [hsplit] at h
  have hlast := (Runs.Along.append_right h).1
  rw [hp] at hlast
  have hfound : p.1.runtime = none ∧ ∃ d ∈ p.2.returned, d ∈ p.2.table ∧
      ∃ s ∈ (openRuntime Sample.config Sample.env (Sample.boot 2) p.1.disk).1.toOption,
        s.store.isSome ∧ p.2.table.length ≤ Sample.config.max_retained_transitions ∧
          s.transitionByGeneration d.generation ≠ .ok d := by
    rw [← hp]
    decide +kernel
  obtain ⟨hclosed, d, hreturned, hretained, s, hs, hdurable, hfits, haltered⟩ := hfound
  exact haltered ((hlast hclosed s hs hdurable d hreturned hretained).2 hfits)

end Fcfn
