import Fcfn.Runtime.Replay

/-!
# The records of a startup

An open writes what it starts with: the configured topology, the policy in force, its epoch and the
boots it fences. These records go past the checks that the same values meet elsewhere: the policy is
not validated first, and the fence list is cut down to its bound only after it was written. They are
replayed when the state meets those checks (`Startable`), and only a topology needs nothing. -/

namespace Fcfn

open Words Stateful RuntimeState DurableStore

/-- Replay accepts a record, whatever was replayed before it. -/
def Accepted (frame : Frame) : Prop := ∀ s, (applyReplayedFrame s frame).isOk

/-- A record that is accepted under any sequence. -/
def AcceptedRecord (type : RecordType) (payload : Bytes) : Prop :=
  ∀ sequence, Accepted ⟨type, sequence, payload⟩

/-- The startup records of a state meet the checks of replay. -/
structure RuntimeState.Startable (s : RuntimeState) : Prop where
  policy : validatePolicy (effectivePolicy s.policy) = .ok ()
  epoch : s.epoch ≠ 0
  fenced : s.fenced_boots.length ≤ kMaxFencedBoots

instance RuntimeState.Startable.instDecidable (s : RuntimeState) : Decidable s.Startable :=
  decidable_of_iff (validatePolicy (effectivePolicy s.policy) = .ok () ∧ s.epoch ≠ 0 ∧
    s.fenced_boots.length ≤ kMaxFencedBoots)
    ⟨fun ⟨policy, epoch, fenced⟩ => ⟨policy, epoch, fenced⟩,
      fun ⟨policy, epoch, fenced⟩ => ⟨policy, epoch, fenced⟩⟩

/-! ## One record -/

/-- The record of a topology is accepted. -/
theorem accepted_topology (t : Topology) : AcceptedRecord .topologyDefinition t.encode := by
  intro sequence s
  unfold applyReplayedFrame
  simp only [t.decode_encode]
  rfl

/-- The record of a policy is accepted exactly when the policy meets its rules. -/
theorem accepted_policy_iff {policy : ContainmentPolicy} :
    AcceptedRecord .policyDefinition policy.encode ↔ validatePolicy policy = .ok () := by
  constructor
  · intro h
    have hreplayed := h 0 (.initial {})
    unfold applyReplayedFrame at hreplayed
    rw [policy.decode_encode] at hreplayed
    cases hvalid : validatePolicy policy with
    | error status =>
      rw [hvalid] at hreplayed
      exact absurd hreplayed (by simp [Except.map, bind, Except.bind, Except.isOk, Except.toBool])
    | ok _ => rfl
  · intro h sequence s
    unfold applyReplayedFrame
    simp only [policy.decode_encode, h]
    rfl

/-- The record of an epoch is accepted unless the epoch has wrapped around. -/
theorem accepted_epochAdvance_iff {epoch : CoordinatorEpoch} {boot : BootIdentity} :
    AcceptedRecord .epochAdvance (encodeEpochAdvance epoch boot) ↔ epoch ≠ 0 := by
  constructor
  · intro h hzero
    have hreplayed := h 0 (.initial {})
    unfold applyReplayedFrame at hreplayed
    rw [decodeEpochAdvance_encode, require, if_neg (by simpa using hzero)] at hreplayed
    exact absurd hreplayed (by simp [Except.map, fail, bind, Except.bind, Except.isOk, Except.toBool])
  · intro h sequence s
    unfold applyReplayedFrame
    rw [decodeEpochAdvance_encode, require, if_pos (by simpa using h)]
    rfl

/-- The record of a fence list is accepted exactly when the list is within its bound. -/
theorem accepted_fence_iff {boots : List BootId} (hlen : boots.length < 2 ^ 32) :
    AcceptedRecord .fence (encodeFence boots) ↔ boots.length ≤ kMaxFencedBoots := by
  constructor
  · intro h
    by_contra hlong
    have hreplayed := h 0 (.initial {})
    unfold applyReplayedFrame at hreplayed
    simp only [decodeFence_refused (by omega) hlen] at hreplayed
    exact absurd hreplayed (by simp [fail, bind, Except.bind, Except.isOk, Except.toBool])
  · intro h sequence s
    unfold applyReplayedFrame
    simp only [decodeFence_encode h]
    rfl

/-- A state is startable exactly when the records it starts with are accepted. -/
theorem RuntimeState.startable_iff {s : RuntimeState} (hlen : s.fenced_boots.length < 2 ^ 32) :
    s.Startable ↔ AcceptedRecord .policyDefinition (effectivePolicy s.policy).encode ∧
      AcceptedRecord .epochAdvance (encodeEpochAdvance s.epoch s.boot) ∧
      AcceptedRecord .fence (encodeFence s.fenced_boots) := by
  rw [accepted_policy_iff, accepted_epochAdvance_iff, accepted_fence_iff hlen]
  exact ⟨fun ⟨hpolicy, hepoch, hfenced⟩ => ⟨hpolicy, hepoch, hfenced⟩,
    fun ⟨hpolicy, hepoch, hfenced⟩ => ⟨hpolicy, hepoch, hfenced⟩⟩

/-! ## One startup -/

/-- A commit of an accepted record writes nothing else, and leaves alone what startup records are made
of. -/
theorem commit_accepted (env : Env) {type : RecordType} {payload : Bytes}
    (h : AcceptedRecord type payload) (s : RuntimeState) :
    Grown AcceptedRecord s.store (exec (commit env type payload) s).2.store ∧
      (s.Startable → (exec (commit env type payload) s).2.Startable) := by
  refine ⟨moves_commit h s, fun hs => ?_⟩
  rcases exec_commit env type payload s with ⟨hc, -⟩ | ⟨⟨status, hc⟩, -⟩
  · rw [hc]
    exact ⟨hs.policy, hs.epoch, hs.fenced⟩
  · rw [hc]
    exact hs

/-- Taking in the configured topology writes an accepted record at most. -/
theorem takeConfigured_accepted (env : Env) (s : RuntimeState) :
    Grown AcceptedRecord s.store (exec (takeConfigured env) s).2.store ∧
      (s.Startable → (exec (takeConfigured env) s).2.Startable) := by
  unfold takeConfigured
  rw [exec_get_bind]
  split
  · rw [exec_bind, exec_lift]
    cases Topology.build s.config.topology with
    | error status => exact ⟨.refl _, id⟩
    | ok t =>
      simp only [exec_modify_bind]
      have htaken : s.Startable → ({ s with topology := some t } : RuntimeState).Startable :=
        fun hs => ⟨hs.policy, hs.epoch, hs.fenced⟩
      split
      · obtain ⟨hgrown, hstartable⟩ := commit_accepted env (accepted_topology t)
          { s with topology := some t }
        exact ⟨hgrown, fun hs => hstartable (htaken hs)⟩
      · exact ⟨.refl _, htaken⟩
  · exact ⟨.refl _, id⟩

/-- The other startup records of a startable state are accepted. -/
theorem beginDurable_accepted (env : Env) {s : RuntimeState} (h : s.Startable) :
    Grown AcceptedRecord s.store (exec (beginDurable env) s).2.store := by
  have hlen : s.fenced_boots.length < 2 ^ 32 := h.fenced.trans_lt (by decide)
  obtain ⟨hpolicy, hepochAdvance, hfence⟩ := (startable_iff hlen).mp h
  unfold beginDurable
  rw [exec_get_bind]
  split
  · rw [exec_modify_bind, exec_get_bind]
    have hmoves : Moves (fun s s' : RuntimeState => Grown AcceptedRecord s.store s'.store) (do
        commit env .policyDefinition (effectivePolicy s.policy).encode
        commit env .epochAdvance (encodeEpochAdvance s.epoch s.boot)
        commit env .fence (encodeFence s.fenced_boots)) := by
      refine Moves.bind (moves_commit ?_) fun _ => Moves.bind (moves_commit ?_) fun _ =>
        moves_commit ?_
      · exact hpolicy
      · exact hepochAdvance
      · exact hfence
    exact hmoves { s with policy := effectivePolicy s.policy }
  · exact .refl _

/-- A startup of a startable state writes records that replay accepts. -/
theorem startup_accepted (env : Env) {s : RuntimeState} (h : s.Startable) :
    Grown AcceptedRecord s.store (exec (startup env) s).2.store := by
  obtain ⟨htaken, hstartable⟩ := takeConfigured_accepted env s
  unfold startup
  rw [exec_bind]
  cases htake : exec (takeConfigured env) s with
  | mk outcome s₁ =>
    rw [htake] at htaken hstartable
    cases outcome with
    | error status => exact htaken
    | ok _ =>
      have hbegun := beginDurable_accepted env (hstartable h)
      simp only [exec_bind]
      cases hbegin : exec (beginDurable env) s₁ with
      | mk outcome s₂ =>
        rw [hbegin] at hbegun
        cases outcome with
        | error status => exact htaken.trans hbegun
        | ok _ => exact htaken.trans hbegun

/-! ## Runs -/

/-- Every record that an open adds to the log is accepted when it is replayed. -/
def StartupAccepted (sys : System) : Event → Prop
  | .open_ config env boot =>
    ∀ frame ∈ (sys.next (.open_ config env boot)).disk.log.drop sys.disk.log.length, Accepted frame
  | .call _ _ | .crash _ => True

/-- Whenever a store is opened, what it describes can be the start of another incarnation. -/
def OpensStartable (sys : System) : Event → Prop
  | .open_ config _ boot => sys.runtime = none → ∀ s ∈ (recover config sys.disk).1.toOption,
    s.store.isSome → (s.incarnate boot).Startable
  | .call _ _ | .crash _ => True

instance OpensStartable.instDecidable (sys : System) : (event : Event) →
    Decidable (OpensStartable sys event)
  | .open_ config _ boot =>
    have : Decidable (∀ s ∈ (recover config sys.disk).1.toOption,
      s.store.isSome → (s.incarnate boot).Startable) := Option.decidableForallMem _
    inferInstanceAs (Decidable (sys.runtime = none → ∀ s ∈ (recover config sys.disk).1.toOption,
      s.store.isSome → (s.incarnate boot).Startable))
  | .call _ _ | .crash _ => inferInstanceAs (Decidable True)

/-- An open of a store that describes a startable state adds records that are accepted. -/
theorem startupAccepted_of_opensStartable {sys : System} {event : Event}
    (h : OpensStartable sys event) : StartupAccepted sys event := by
  cases event with
  | open_ config env boot =>
    intro frame hframe
    cases hrun : sys.runtime with
    | some s =>
      rw [next_open_live hrun] at hframe
      exact absurd hframe (by simp)
    | none =>
      rw [next_open hrun] at hframe
      have hgrown : ∀ s ∈ (recover config sys.disk).1.toOption, Grown AcceptedRecord
          (s.incarnate boot).store (exec (startup env) (s.incarnate boot)).2.store := by
        intro s hs
        cases hstore : s.store with
        | none =>
          -- without a store nothing is written
          have hsome := (moves_startup env (s.incarnate boot)).isSome
          rw [show (s.incarnate boot).store = none from hstore] at hsome ⊢
          rw [show (exec (startup env) (s.incarnate boot)).2.store = none by simpa using hsome]
          exact .refl _
        | some store => exact startup_accepted env (h hrun s hs (by simp [hstore]))
      rcases openRuntime_grown config env boot sys.disk hgrown with ⟨hsame, -⟩ |
        ⟨recovery, store, -, hopen, hgrown, hdisk, -⟩
      · rw [hsame] at hframe
        exact absurd hframe (by simp)
      · obtain ⟨-, -, added, hlog, hadded⟩ := hgrown.disk
        rw [hdisk, hlog, (openStore_spec hopen).log, List.drop_left] at hframe
        exact hadded frame hframe frame.sequence
  | call env call => trivial
  | crash torn_bytes => trivial

/-- In a run whose opens find a startable state, every record that an open writes is accepted when it
is replayed. -/
theorem startup_records_accepted (events : List Event)
    (h : Runs.Along System.next OpensStartable {} events) :
    Runs.Along System.next StartupAccepted {} events :=
  h.mono fun _ _ => startupAccepted_of_opensStartable

/-- Three incarnations of a store, the second from a snapshot. -/
theorem startup_records_accepted_restarts : Runs.Along System.next StartupAccepted {}
    [Sample.opens 1, Sample.does .checkpoint, .crash 0, Sample.opens 2, .crash 5, Sample.opens 3] :=
  startup_records_accepted _ (by decide +kernel)

/-- A runtime is opened with a policy that allows no member: its record is refused by the next
open. -/
theorem configured_policy_refused :
    ¬ ∀ events, Runs.Along System.next StartupAccepted {} events := by
  intro h
  let policy : ContainmentPolicy := { generation := 1, max_boundary_members := 0 }
  obtain ⟨haccepted, -⟩ := h [.open_ { Sample.config with policy := policy } Sample.env
    (Sample.boot 1)]
  have hrefused : ∃ frame ∈ (System.next {} (.open_ { Sample.config with policy := policy }
      Sample.env (Sample.boot 1))).disk.log, ¬ (applyReplayedFrame (.initial {}) frame).isOk := by
    decide +kernel
  obtain ⟨frame, hframe, hrefused⟩ := hrefused
  exact hrefused (haccepted frame hframe _)

end Fcfn
