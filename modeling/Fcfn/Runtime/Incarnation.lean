import Fcfn.Runtime.Outcome

/-!
# Incarnations

What an open leaves and how invariants are carried along a run. A property of the live runtime holds
in every state reached when every successful open establishes it (`openRuntime_ok`, `startup_ok`)
and every way a call can end keeps it (`Live.step`). -/

namespace Fcfn

open Words Stateful RuntimeState DurableStore Tables

/-! ## Startup -/

namespace RuntimeState

/-- The state with a topology that was built from the configuration, recorded when durable. -/
def configure (s : RuntimeState) (t : Topology) : RuntimeState :=
  if s.store.isSome then
    ({ s with topology := some t } : RuntimeState).committed .topologyDefinition t.encode
  else { s with topology := some t }

/-- The state once the startup records are committed. -/
def began (s : RuntimeState) : RuntimeState :=
  let s := { s with policy := effectivePolicy s.policy }
  ((s.committed .policyDefinition s.policy.encode).committed .epochAdvance
    (encodeEpochAdvance s.epoch s.boot)).committed .fence (encodeFence s.fenced_boots)

end RuntimeState

/-- The state once the configured topology was taken in: when none was recovered. -/
inductive Configured (s : RuntimeState) : RuntimeState → Prop
  | kept (has : s.topology ≠ none ∨ s.config.topology.nodes = []) : Configured s s
  | built {t : Topology} (missing : s.topology = none)
      (build : Topology.build s.config.topology = .ok t) : Configured s (s.configure t)

/-- What a startup that succeeded leaves. -/
inductive Started (s : RuntimeState) : RuntimeState → Prop
  | volatile {s₁ : RuntimeState} (configured : Configured s s₁) (store : s.store = none) :
    Started s s₁.evictBoundedTables
  | durable {s₁ : RuntimeState} (configured : Configured s s₁) (store : s.store.isSome) :
    Started s s₁.began.evictBoundedTables

/-- A durable state stays durable. -/
theorem Configured.isSome {s s₁ : RuntimeState} (h : Configured s s₁) :
    s₁.store.isSome = s.store.isSome := by
  cases h with
  | kept => rfl
  | built => unfold configure; split <;> simp [committed]

/-- Committing, when it succeeded. -/
theorem exec_commit_ok {env : Env} {type : RecordType} {payload : Bytes} {s s' : RuntimeState}
    (h : exec (commit env type payload) s = (.ok (), s')) : s' = s.committed type payload := by
  rcases exec_commit env type payload s with ⟨hc, -⟩ | ⟨⟨status, hc⟩, -⟩
  · rw [hc] at h
    exact (Prod.mk.inj h).2.symm
  · rw [hc] at h
    exact absurd (Prod.mk.inj h).1 (by simp)

/-- Taking in the configured topology, when it succeeds. -/
theorem takeConfigured_ok {env : Env} {s s₁ : RuntimeState}
    (h : exec (takeConfigured env) s = (.ok (), s₁)) : Configured s s₁ := by
  simp only [takeConfigured, exec_bind, exec_get] at h
  split at h
  · rename_i hneeds
    rw [exec_bind_ok] at h
    obtain ⟨t, s₂, hlift, h⟩ := h
    rw [exec_lift] at hlift
    obtain ⟨hbuild, rfl⟩ := Prod.mk.inj hlift
    have hconfigure : s₁ = s.configure t := by
      simp only [exec_bind, exec_modify] at h
      unfold configure
      split at h
      · rename_i hstore
        rw [if_pos hstore]
        exact exec_commit_ok h
      · rename_i hstore
        rw [if_neg hstore]
        exact (Prod.mk.inj h).2.symm
    rw [hconfigure]
    exact .built hneeds.2 hbuild
  · rename_i hneeds
    obtain rfl : s = s₁ := by simpa using h
    refine .kept ?_
    by_cases htop : s.topology = none
    · exact Or.inr (by simpa [htop] using hneeds)
    · exact Or.inl htop

/-- Committing the startup records, when it succeeds. -/
theorem beginDurable_ok {env : Env} {s s₁ : RuntimeState}
    (h : exec (beginDurable env) s = (.ok (), s₁)) :
    s₁ = if s.store.isSome then s.began else s := by
  simp only [beginDurable, exec_bind, exec_get] at h
  split at h
  · rename_i hstore
    rw [if_pos hstore]
    rw [exec_modify_bind, exec_get_bind, exec_bind_ok] at h
    obtain ⟨_, s₂, hpolicy, h⟩ := h
    rw [exec_bind_ok] at h
    obtain ⟨_, s₃, hepoch, hfence⟩ := h
    rw [exec_commit_ok hfence, exec_commit_ok hepoch, exec_commit_ok hpolicy]
    rfl
  · rename_i hstore
    rw [if_neg hstore]
    exact (Prod.mk.inj h).2.symm

/-- A startup that succeeds takes in the configured topology and commits its records. -/
theorem startup_ok {env : Env} {s s' : RuntimeState}
    (h : exec (startup env) s = (.ok (), s')) : Started s s' := by
  rw [startup, exec_bind_ok] at h
  obtain ⟨_, s₁, htake, h⟩ := h
  rw [exec_bind_ok] at h
  obtain ⟨_, s₂, hbegin, h⟩ := h
  obtain rfl : s₂.evictBoundedTables = s' := by simpa using h
  have hconfigured := takeConfigured_ok htake
  rw [beginDurable_ok hbegin]
  by_cases hstore : s.store.isSome
  · rw [if_pos (hconfigured.isSome.trans hstore)]
    exact .durable hconfigured hstore
  · rw [if_neg (by rwa [hconfigured.isSome])]
    exact .volatile hconfigured (by simpa using hstore)

/-- What a startup leaves as it was. -/
structure SameIncarnation (s s' : RuntimeState) : Prop where
  config : s'.config = s.config
  epoch : s'.epoch = s.epoch
  boot : s'.boot = s.boot
  evidence : s'.evidence = s.evidence
  evidence_revision : s'.evidence_revision = s.evidence_revision
  plan_counter : s'.plan_counter = s.plan_counter
  attempt_counter : s'.attempt_counter = s.attempt_counter
  authorization_counter : s'.authorization_counter = s.authorization_counter
  boundary : s'.boundary = s.boundary
  boundary_plan : s'.boundary_plan = s.boundary_plan
  boundary_plan_digest : s'.boundary_plan_digest = s.boundary_plan_digest
  effect_state : s'.effect_state = s.effect_state
  effect_requires_reverification :
    s'.effect_requires_reverification = s.effect_requires_reverification
  authorizations : s'.authorizations = s.authorizations
  isSome : s'.store.isSome = s.store.isSome
  plans : s'.plans = dropExcess s.config.max_retained_plans s.plans
  attempts : s'.attempts = dropExcess s.config.max_retained_attempts s.attempts
  transitions : s'.transitions = dropExcess s.config.max_retained_transitions s.transitions
  detections : s'.detections = dropExcess s.config.max_retained_detections s.detections

/-- A startup changes the store, the topology, the policy and what exceeds the tables. -/
theorem Started.same {s s' : RuntimeState} (h : Started s s') : SameIncarnation s s' := by
  cases h with
  | volatile hconfigured hstore =>
    cases hconfigured with
    | kept =>
      constructor <;> rfl
    | built =>
      unfold configure
      rw [if_neg (by simp [hstore])]
      constructor <;> rfl
  | durable hconfigured hstore =>
    cases hconfigured with
    | kept =>
      constructor <;> first | rfl | simp [began, committed, evictBoundedTables]
    | built =>
      unfold configure
      rw [if_pos hstore]
      constructor <;> first | rfl | simp [began, committed, evictBoundedTables]

/-! ## Opening -/

/-- A runtime that opened was recovered, began an incarnation and was started. -/
theorem openRuntime_ok {config : RuntimeConfig} {env : Env} {boot : BootIdentity} {disk disk' : Disk}
    {s : RuntimeState} (h : openRuntime config env boot disk = (.ok s, disk')) :
    ∃ s₀ disk₀, recover config disk = (.ok s₀, disk₀) ∧ Started (s₀.incarnate boot) s ∧
      disk' = s.diskOr disk₀ := by
  unfold openRuntime at h
  split at h
  · exact absurd (Prod.mk.inj h).1 (by simp)
  · rename_i s₀ disk₀ hrecover
    cases hstart : exec (startup env) (s₀.incarnate boot) with
    | mk outcome s' =>
      simp only [hstart] at h
      obtain ⟨hok, rfl⟩ := Prod.mk.inj h
      cases outcome with
      | error status => exact absurd hok (by simp [Except.map])
      | ok u =>
        obtain rfl : s' = s := Except.ok.inj hok
        exact ⟨s₀, disk₀, hrecover, startup_ok hstart, rfl⟩

/-! ## Invariants of the live runtime -/

/-- A condition on the calls of the live runtime. -/
def OnCall (P : RuntimeState → Env → Call → Prop) (sys : System) : Event → Prop
  | .call env call => ∀ s ∈ sys.runtime, P s env call
  | .open_ _ _ _ | .crash _ => True

instance OnCall.instDecidable {P : RuntimeState → Env → Call → Prop}
    [∀ s env call, Decidable (P s env call)] (sys : System) (event : Event) :
    Decidable (OnCall P sys event) :=
  match event with
  | .call env call => inferInstanceAs (Decidable (∀ s ∈ sys.runtime, P s env call))
  | .open_ _ _ _ | .crash _ => inferInstanceAs (Decidable True)

/-- A property of the live runtime. -/
def Live (J : RuntimeState → Prop) (sys : System) : Prop := ∀ s ∈ sys.runtime, J s

instance Live.instDecidable {J : RuntimeState → Prop} [DecidablePred J] (sys : System) :
    Decidable (Live J sys) :=
  inferInstanceAs (Decidable (∀ s ∈ sys.runtime, J s))

section Next

variable {sys : System}

/-- A store that is open stays with the process that has it. -/
theorem next_open_live {s : RuntimeState} (h : sys.runtime = some s) (config : RuntimeConfig)
    (env : Env) (boot : BootIdentity) : sys.next (.open_ config env boot) = sys := by
  rw [System.next, System.step, h]

/-- Opening a store that no process has open. -/
theorem next_open (h : sys.runtime = none) (config : RuntimeConfig) (env : Env)
    (boot : BootIdentity) :
    sys.next (.open_ config env boot) =
      ⟨(openRuntime config env boot sys.disk).2,
        (openRuntime config env boot sys.disk).1.toOption⟩ := by
  rw [System.next, System.step, h]
  cases hres : openRuntime config env boot sys.disk with
  | mk outcome disk => cases outcome <;> rfl

/-- A call without a live runtime changes nothing. -/
theorem next_call_closed (h : sys.runtime = none) (env : Env) (call : Call) :
    sys.next (.call env call) = sys := by
  rw [System.next, System.step, h]

/-- A call of the live runtime. -/
theorem next_call {s : RuntimeState} (h : sys.runtime = some s) (env : Env) (call : Call) :
    sys.next (.call env call) =
      ⟨(exec (perform env call) s).2.diskOr sys.disk, some (exec (perform env call) s).2⟩ := by
  rw [System.next, System.step, h]

/-- The runtime after a call. -/
theorem runtime_call {s : RuntimeState} (h : sys.runtime = some s) (env : Env) (call : Call) :
    (sys.next (.call env call)).runtime = some (exec (perform env call) s).2 := by
  rw [next_call h]

/-- What a call of the live runtime returns. -/
theorem reply_call {s : RuntimeState} (h : sys.runtime = some s) (env : Env) (call : Call) :
    sys.reply (.call env call) = (exec (perform env call) s).1 := by
  rw [System.reply, System.step, h]

/-- A process that stops leaves the files. -/
theorem next_crash (torn_bytes : ℕ) :
    sys.next (.crash torn_bytes) = { disk := sys.diskAfterCrash torn_bytes } := rfl

end Next

/-- What every open that succeeds establishes and every call keeps holds of the live runtime after every
step. -/
theorem Live.next {J : RuntimeState → Prop} {sys : System} (h : Live J sys) {event : Event}
    (hopen : ∀ config env boot s, event = .open_ config env boot → sys.runtime = none →
      (openRuntime config env boot sys.disk).1 = .ok s → J s)
    (hcall : ∀ env call s, event = .call env call → sys.runtime = some s → J s →
      J (exec (perform env call) s).2) :
    Live J (sys.next event) := by
  intro s' hs'
  cases event with
  | open_ config env boot =>
    cases hrun : sys.runtime with
    | some s =>
      rw [next_open_live hrun] at hs'
      exact h s' hs'
    | none =>
      rw [next_open hrun] at hs'
      exact hopen config env boot s' rfl hrun (mem_toOption.mp hs')
  | call env call =>
    cases hrun : sys.runtime with
    | none =>
      rw [next_call_closed hrun] at hs'
      exact h s' hs'
    | some s =>
      rw [next_call hrun] at hs'
      obtain rfl := Option.some.inj hs'
      exact hcall env call s rfl hrun (h s hrun)
  | crash torn_bytes =>
    rw [next_crash] at hs'
    exact absurd hs' (by simp)

/-- A property that every open establishes and every outcome keeps is kept by every step. -/
theorem Live.step {J : RuntimeState → Prop} {P : RuntimeState → Env → Call → Prop}
    (hopen : ∀ s₀ boot s, Started (RuntimeState.incarnate s₀ boot) s → J s)
    (hcall : ∀ env s call reply s', J s → P s env call → Outcome env s call reply s' → J s')
    {sys : System} (h : Live J sys) {event : Event} (hp : OnCall P sys event) :
    Live J (sys.next event) := by
  refine h.next (fun config env boot s _ _ hok => ?_) fun env call s hevent hrun hs => ?_
  · obtain ⟨s₀, -, -, hstarted, -⟩ := openRuntime_ok (Prod.ext hok rfl)
    exact hopen s₀ boot s hstarted
  · subst hevent
    exact hcall env s call _ _ hs (hp s hrun) (perform_outcome env s call)

end Fcfn
