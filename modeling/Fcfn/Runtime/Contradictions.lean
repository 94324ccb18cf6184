import Fcfn.Engine.Claimed
import Fcfn.Runtime.PlanRecords

/-!
# Contradictory evidence

An observation that contradicts the evidence is refused, and until something newer is known of its
resource no plan may prove anything. The runtime keeps one flag for this. Every observation that
changes the evidence clears it, whichever resource it is of, and a restart does not restore it.
`contradictions_block_proofs` says that these are the only two ways a contradiction is forgotten. -/

namespace Fcfn

open Words Stateful RuntimeState DurableStore

/-- An observation contradicts the evidence: it names the generation of its resource's entry with
another content. -/
def RuntimeState.Contradicts (s : RuntimeState) (observation : FailureObservation) : Prop :=
  ∃ entry ∈ s.evidence.find observation.resource, observation.generation = entry.generation ∧
    (entry.source_digest ≠ observation.source_digest ∨ entry.state ≠ observation.state)

instance RuntimeState.Contradicts.instDecidable (s : RuntimeState)
    (observation : FailureObservation) : Decidable (s.Contradicts observation) :=
  Option.decidableExistsMem _

/-- Note the resources and generations of the contradictions that nothing newer has resolved. -/
def noteContradiction (sys : System) (event : Event)
    (pending : List (ResourceId × EvidenceGeneration)) : List (ResourceId × EvidenceGeneration) :=
  match sys.runtime, event with
  | some s, .call _ (.recordDetection observation) =>
    if s.Contradicts observation then (observation.resource, observation.generation) :: pending
    else if Reply.accepts (sys.reply event) then
      pending.filter fun entry =>
        !(entry.1 == observation.resource && decide (entry.2 < observation.generation))
    else pending
  | _, _ => pending

/-- A plan that is returned while a contradiction is pending proves nothing. -/
def BlocksProofs (p : System × List (ResourceId × EvidenceGeneration)) (event : Event) : Prop :=
  p.2 ≠ [] → ∀ plan ∈ Reply.computed (p.1.reply event),
    plan.currency = .conflicting ∧ plan.claim = .indeterminate

instance BlocksProofs.instDecidable (p : System × List (ResourceId × EvidenceGeneration))
    (event : Event) : Decidable (BlocksProofs p event) :=
  have _ : Decidable (∀ plan ∈ Reply.computed (p.1.reply event),
      plan.currency = .conflicting ∧ plan.claim = .indeterminate) := Option.decidableForallMem _
  inferInstanceAs (Decidable (_ → _))

/-- An observation changes the evidence: it merges to other evidence, and its record fits. -/
def RuntimeState.ChangesEvidence (s : RuntimeState) (env : Env) (observation : FailureObservation) :
    Prop :=
  s.Committable env (encodeDetection (s.detectionRecord observation)) ∧
    ∃ merged ∈ (s.evidence.merged observation).toOption, merged.digest ≠ s.evidence.digest

instance RuntimeState.ChangesEvidence.instDecidable (s : RuntimeState) (env : Env)
    (observation : FailureObservation) : Decidable (s.ChangesEvidence env observation) :=
  have _ : Decidable (∃ merged ∈ (s.evidence.merged observation).toOption,
      merged.digest ≠ s.evidence.digest) := Option.decidableExistsMem _
  inferInstanceAs (Decidable (_ ∧ _))

/-- An observation changes the evidence only while no other resource's contradiction is pending, and
a runtime is opened only while none is. -/
def ResolvesFirst (p : System × List (ResourceId × EvidenceGeneration)) : Event → Prop
  | .open_ config env boot => p.1.runtime = none →
    (openRuntime config env boot p.1.disk).1.isOk = true → p.2 = []
  | .call env (.recordDetection observation) => ∀ s ∈ p.1.runtime,
    s.ChangesEvidence env observation → ∀ entry ∈ p.2, entry.1 = observation.resource
  | _ => True

instance ResolvesFirst.instDecidable (p : System × List (ResourceId × EvidenceGeneration)) :
    (event : Event) → Decidable (ResolvesFirst p event)
  | .open_ config env boot =>
    inferInstanceAs (Decidable (p.1.runtime = none →
      (openRuntime config env boot p.1.disk).1.isOk = true → p.2 = []))
  | .call env (.recordDetection observation) =>
    have _ : ∀ s : RuntimeState, Decidable (s.ChangesEvidence env observation →
        ∀ entry ∈ p.2, entry.1 = observation.resource) :=
      fun _ => inferInstanceAs (Decidable (_ → _))
    have h : Decidable (∀ s ∈ p.1.runtime, s.ChangesEvidence env observation →
      ∀ entry ∈ p.2, entry.1 = observation.resource) := Option.decidableForallMem _
    h
  | .crash _ | .call _ (.applyTopology _) | .call _ (.applyPolicy _) | .call _ .authorize
  | .call _ (.plan _) | .call _ (.transition _) | .call _ (.submitApply _ _ _)
  | .call _ (.acknowledge _) | .call _ (.verifyEffect _) | .call _ .checkpoint =>
    inferInstanceAs (Decidable True)

/-- Contradictions that are pending are remembered, and the evidence has not gone back before them. -/
def Remembered (p : System × List (ResourceId × EvidenceGeneration)) : Prop :=
  ∀ s ∈ p.1.runtime, ∀ entry ∈ p.2, s.evidence_conflict = true ∧
    ∃ e, s.evidence.find entry.1 = some e ∧ entry.2 ≤ e.generation

/-! ## What a call does to the evidence -/

/-- An observation that contradicts the evidence does not merge. -/
theorem merged_of_contradicts {s : RuntimeState} {observation : FailureObservation}
    (h : s.Contradicts observation) :
    s.evidence.merged observation =
      fail .conflict "contradictory observation at the same generation" := by
  obtain ⟨entry, hfind, hgeneration, hdiffers⟩ := h
  obtain ⟨hmem, hresource⟩ := EvidenceVector.find_eq_some.mp hfind
  have hne := s.evidence.valid.resource_ne_nil entry hmem
  have hzero := s.evidence.valid.generation_ne_zero entry hmem
  rw [hresource] at hne
  rw [← hgeneration] at hzero
  have hfind' : s.evidence.find observation.resource = some entry := hfind
  have hirrefl : ¬ entry.generation < entry.generation := UInt64.lt_irrefl _
  simp only [EvidenceVector.merged, hfind', hgeneration, hirrefl, if_false, if_true, hdiffers]
  rw [← hgeneration]
  simp [require, hne, hzero, bind, Except.bind]

/-- The evidence after a call. -/
inductive EvidenceAfter (env : Env) (s : RuntimeState) : Call → Result Reply → RuntimeState → Prop
  | same {call : Call} {reply : Result Reply} {s' : RuntimeState}
      (evidence : s'.evidence = s.evidence)
      (conflict : s'.evidence_conflict = s.evidence_conflict ∨ s'.evidence_conflict = true) :
    EvidenceAfter env s call reply s'
  | changed {observation : FailureObservation} {reply : Result Reply} {s' : RuntimeState}
      (changes : s.ChangesEvidence env observation) (accepts : Reply.accepts reply = true)
      (merges : s.evidence.merged observation = .ok s'.evidence) :
    EvidenceAfter env s (.recordDetection observation) reply s'

/-- A call changes the evidence or keeps it. -/
theorem Outcome.evidence {env : Env} {s s' : RuntimeState} {call : Call} {reply : Result Reply}
    (h : Outcome env s call reply s') : EvidenceAfter env s call reply s' := by
  cases h with
  | conflicting => exact .same rfl (Or.inr rfl)
  | detected merges changed committable =>
    exact .changed ⟨committable, _, mem_toOption.mpr merges, changed⟩ rfl merges
  | transitionFailed _ _ counted => rcases counted with rfl | rfl <;> exact .same rfl (Or.inl rfl)
  | transitionRefused _ _ _ counted =>
    rcases counted with rfl | rfl <;> exact .same rfl (Or.inl rfl)
  | ackMismatched _ _ _ taken => rcases taken with rfl | ⟨-, rfl⟩ <;> exact .same rfl (Or.inl rfl)
  | verified =>
    rw [adoptVerified_eq]
    exact .same rfl (Or.inl rfl)
  | _ => exact .same rfl (Or.inl rfl)

/-- A contradiction is refused, and the runtime remembers that there is one. -/
theorem exec_contradicts {s : RuntimeState} {observation : FailureObservation}
    (h : s.Contradicts observation) (env : Env) :
    exec (perform env (.recordDetection observation)) s =
      (fail .conflict "contradictory observation at the same generation",
        { s with evidence_conflict := true }) := by
  have hmerged := merged_of_contradicts h
  obtain ⟨entry, hfind, hgeneration, -⟩ := h
  have hzero := s.evidence.valid.generation_ne_zero entry (EvidenceVector.find_eq_some.mp hfind).1
  rw [← hgeneration] at hzero
  have hnonzero : (observation.generation != 0) = true := by simpa using hzero
  simp only [perform, exec_map, recordDetection, exec_bind, exec_lift, exec_get, hnonzero, require,
    if_true, hmerged, fail, exec_modify, exec_throw]
  rfl

/-! ## Runs -/

/-- A call keeps the pending contradictions remembered. -/
theorem Remembered.call {sys : System} {pending : List (ResourceId × EvidenceGeneration)}
    (h : Remembered (sys, pending)) {s : RuntimeState} (hrun : sys.runtime = some s) (env : Env)
    (call : Call) (hp : ResolvesFirst (sys, pending) (.call env call)) :
    Remembered (Runs.observe System.next noteContradiction (sys, pending) (.call env call)) := by
  intro s' hs' entry hentry
  simp only [Runs.observe, next_call hrun] at hs'
  obtain rfl := Option.some.inj hs'
  have ho := perform_outcome env s call
  have hreply := reply_call hrun env call
  have hpending := h s hrun
  -- what is kept when the evidence is
  have hsame : ∀ s' : RuntimeState, s'.evidence = s.evidence →
      (s'.evidence_conflict = s.evidence_conflict ∨ s'.evidence_conflict = true) →
      entry ∈ pending → s'.evidence_conflict = true ∧
        ∃ e, s'.evidence.find entry.1 = some e ∧ entry.2 ≤ e.generation := by
    intro s' hevidence hconflict hmem
    obtain ⟨hflag, hfound⟩ := hpending entry hmem
    refine ⟨hconflict.elim (fun heq => heq.trans hflag) id, ?_⟩
    rw [hevidence]
    exact hfound
  by_cases hdetection : ∃ observation, call = .recordDetection observation
  · obtain ⟨observation, rfl⟩ := hdetection
    simp only [Runs.observe, noteContradiction, hrun, hreply] at hentry
    split at hentry
    · -- a new contradiction, at the generation of the entry in force
      rename_i hcontradicts
      rw [exec_contradicts hcontradicts]
      rcases List.mem_cons.mp hentry with rfl | hmem
      · obtain ⟨e, hfind, hgeneration, -⟩ := hcontradicts
        exact ⟨rfl, e, hfind, by rw [hgeneration]; exact UInt64.le_refl _⟩
      · exact hsame _ rfl (Or.inr rfl) hmem
    · rename_i hagrees
      split at hentry
      · rename_i haccepts
        obtain ⟨hmem, hunresolved⟩ := List.mem_filter.mp hentry
        generalize (exec (perform env (.recordDetection observation)) s).2 = s' at ho ⊢
        cases ho.evidence with
        | same evidence conflict => exact hsame s' evidence conflict hmem
        | changed changes accepts merges =>
          -- the entry would be of the observed resource, and the observation is newer
          have hresource := hp s hrun changes entry hmem
          obtain ⟨-, e, hfind, hle⟩ := hpending entry hmem
          rw [hresource] at hfind
          obtain ⟨-, merged, hmerged, hdigest⟩ := changes
          rw [Option.mem_def, merges] at hmerged
          obtain rfl := Option.some.inj hmerged
          rcases EvidenceVector.merged_spec merges with ⟨heq, -⟩ | ⟨hnewer, -⟩
          · exact absurd (congrArg EvidenceVector.digest heq) hdigest
          · have hlt : entry.2 < observation.generation :=
              UInt64.lt_of_le_of_lt hle (hnewer e hfind)
            simp [hresource, hlt] at hunresolved
      · rename_i hrefused
        generalize (exec (perform env (.recordDetection observation)) s).2 = s' at ho ⊢
        cases ho.evidence with
        | same evidence conflict => exact hsame s' evidence conflict hentry
        | changed _ accepts _ => exact absurd accepts hrefused
  · have hkept : noteContradiction sys (.call env call) pending = pending := by
      unfold noteContradiction
      rw [hrun]
      cases call with
      | recordDetection observation => exact absurd ⟨observation, rfl⟩ hdetection
      | _ => rfl
    simp only [Runs.observe, hkept] at hentry
    generalize (exec (perform env call) s).2 = s' at ho ⊢
    cases ho.evidence with
    | same evidence conflict => exact hsame s' evidence conflict hentry
    | changed => exact absurd ⟨_, rfl⟩ hdetection

/-- A step keeps the pending contradictions remembered. -/
theorem Remembered.next {p : System × List (ResourceId × EvidenceGeneration)} (h : Remembered p)
    {event : Event} (hp : ResolvesFirst p event) :
    Remembered (Runs.observe System.next noteContradiction p event) := by
  obtain ⟨sys, pending⟩ := p
  have hclosed : ∀ event, sys.runtime = none → noteContradiction sys event pending = pending := by
    intro event hnone
    unfold noteContradiction
    rw [hnone]
  cases event with
  | open_ config env boot =>
    intro s' hs' entry hentry
    cases hrun : sys.runtime with
    | some s =>
      have hkept : noteContradiction sys (.open_ config env boot) pending = pending := by
        unfold noteContradiction
        rw [hrun]
      simp only [Runs.observe, next_open_live hrun, hkept] at hs' hentry
      exact h s' hs' entry hentry
    | none =>
      simp only [Runs.observe, next_open hrun, hclosed _ hrun] at hs' hentry
      have hok := mem_toOption.mp hs'
      have hnil : pending = [] := hp hrun (by rw [hok]; rfl)
      rw [hnil] at hentry
      exact absurd hentry (by simp)
  | crash torn_bytes =>
    intro s' hs'
    exact absurd hs' (by simp [Runs.observe, next_crash])
  | call env call =>
    cases hrun : sys.runtime with
    | some s => exact h.call hrun env call hp
    | none =>
      intro s' hs'
      simp only [Runs.observe, next_call_closed hrun, hrun] at hs'
      exact absurd hs' (by simp)

/-- While a contradiction is remembered, the next plan proves nothing. -/
theorem nextPlan_conflicting {s : RuntimeState} {t : Topology} {plan : ContainmentPlan}
    (h : s.nextPlan t = .ok plan) (hconflict : s.evidence_conflict = true) :
    plan.currency = .conflicting ∧ plan.claim = .indeterminate := by
  obtain ⟨computed, hcompute, rfl⟩ := nextPlan_ok h
  obtain ⟨hinvalid, hunsupported⟩ := computePlan_settled hcompute
  rw [hconflict, if_pos rfl]
  refine ⟨rfl, ?_⟩
  change (if computed.plan.claim = .invalid ∨ computed.plan.claim = .unsupported then
    computed.plan.claim else ContainmentClaim.indeterminate) = .indeterminate
  rw [if_neg (not_or.mpr ⟨hinvalid, hunsupported⟩)]

/-- In a run that resolves contradictions before it takes other evidence in and before a restart,
every plan that is returned while one is pending is Conflicting and Indeterminate. -/
theorem contradictions_block_proofs {events : List Event}
    (h : Runs.Along (Runs.observe System.next noteContradiction) ResolvesFirst ({}, []) events) :
    Runs.Along (Runs.observe System.next noteContradiction) BlocksProofs ({}, []) events := by
  refine Runs.Along.of_invariant (I := Remembered) ?_ (fun s hs => absurd hs (by simp)) h
  rintro ⟨sys, pending⟩ event hremembered hp
  refine ⟨hremembered.next hp, fun hpending plan hplan => ?_⟩
  obtain ⟨entry, hentry⟩ := List.exists_mem_of_ne_nil _ hpending
  cases event with
  | open_ config env boot =>
    rw [System.reply, System.step] at hplan
    cases hrun : sys.runtime with
    | some s => simp [hrun, fail, Reply.computed] at hplan
    | none =>
      simp only [hrun] at hplan
      split at hplan <;> simp [Reply.computed] at hplan
  | crash torn_bytes => exact absurd hplan (by simp [System.reply, System.step, Reply.computed])
  | call env call =>
    cases hrun : sys.runtime with
    | none => simp [System.reply, System.step, hrun, fail, Reply.computed] at hplan
    | some s =>
      rw [reply_call hrun] at hplan
      obtain ⟨-, ⟨t, -, hcomputed⟩, -, -⟩ := (perform_outcome env s call).computed hplan
      exact nextPlan_conflicting hcomputed (hremembered s hrun entry hentry).1

/-- The resource is reported failed and, under the same generation, not failed. -/
def Sample.contradicted : List Event := [opens 1, detects 1 .present, detects 1 .absent]

/-- Planning while the contradiction is pending, and once a newer observation has resolved it. -/
theorem contradictions_block_proofs_resolved :
    Runs.Along (Runs.observe System.next noteContradiction) BlocksProofs ({}, [])
      (Sample.contradicted ++ [Sample.does .authorize, Sample.does (.plan 1),
        Sample.detects 2 .absent, Sample.does .authorize, Sample.does (.plan 2)]) :=
  contradictions_block_proofs (by decide +kernel)

/-- An observation of another resource makes the runtime forget the contradiction, and the next plan
claims containment. -/
theorem contradiction_forgotten :
    ¬ ∀ events, Runs.Along (Runs.observe System.next noteContradiction) BlocksProofs ({}, [])
      events := by
  intro h
  have hblocks := h (Sample.contradicted ++
    [Sample.does (.recordDetection ⟨bytesOf "b", .absent, 1, Digest.zero⟩), Sample.does .authorize,
      Sample.does (.plan 1)])
  revert hblocks
  decide +kernel

end Fcfn
