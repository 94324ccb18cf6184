import Fcfn.Runtime.Replay
import Fcfn.Store.Scan

/-!
# What a store describes

The sequences of a log ascend from the one its snapshot covers, in every state that a run reaches, so
an open replays the log whole: what it recovers is described by the files alone (`Describes`). A
record that is appended is then one more step of every replay (`Describes.append`), and a snapshot
starts the replays anew (`describes_saved`). Processes may also stop in the middle of an open
(`Incident`), and `openRuntime_writes` lists what such a process leaves in the log. -/

namespace Fcfn

open Words Stateful RuntimeState DurableStore Tables

/-! ## Opening a store whose log ascends -/

namespace DurableStore

/-- The log goes on from the snapshot. -/
def InOrder (disk : Disk) : Prop :=
  DurableStore.Ascends (snapshotSequence disk.snapshot) disk.log

/-- The sequence of the last record, or of the snapshot. -/
def endSequence (disk : Disk) : Sequence := lastSequence (snapshotSequence disk.snapshot) disk.log

/-- The snapshot that is read is the one there is. -/
theorem readSnapshot_ok {disk : Disk} {sequence : Sequence} {payload : Bytes}
    (h : readSnapshot disk = .ok (sequence, payload)) :
    sequence = snapshotSequence disk.snapshot ∧ payload = snapshotPayload disk.snapshot := by
  unfold readSnapshot at h
  cases hs : disk.snapshot with
  | none =>
    rw [hs] at h
    obtain ⟨rfl, rfl⟩ := Prod.mk.inj (Except.ok.inj h)
    exact ⟨rfl, rfl⟩
  | some p =>
    rw [hs] at h
    simp only [require_bind_eq_ok, pure_eq_ok] at h
    obtain ⟨-, -, h⟩ := h
    obtain ⟨rfl, rfl⟩ := Prod.mk.inj h
    exact ⟨rfl, rfl⟩

/-- A store whose log ascends is opened with its whole log, or not at all. -/
theorem openStore_inOrder {disk : Disk} {allow : Bool} {recovery : Recovery} (horder : InOrder disk)
    (h : openStore disk allow = .ok recovery) :
    recovery.replayed = disk.log ∧ recovery.snapshot_payload = snapshotPayload disk.snapshot ∧
      recovery.store.disk.snapshot = disk.snapshot ∧ recovery.store.disk.log = disk.log ∧
      recovery.store.last_sequence = endSequence recovery.store.disk := by
  rw [openStore, bind_eq_ok] at h
  obtain ⟨⟨sequence, payload⟩, hread, h⟩ := h
  obtain ⟨rfl, rfl⟩ := readSnapshot_ok hread
  simp only [require_bind_eq_ok] at h
  obtain ⟨-, h⟩ := h
  obtain ⟨previous, hscan⟩ := @DurableStore.Ascends.scan disk.log
    { last_sequence := snapshotSequence disk.snapshot } horder (by simp)
  rw [hscan, bind_eq_ok] at h
  obtain ⟨scan, hscanned, h⟩ := h
  obtain rfl := Except.ok.inj hscanned
  rw [require_bind_eq_ok, pure_eq_ok] at h
  obtain ⟨-, rfl⟩ := h
  exact ⟨rfl, rfl, rfl, rfl, rfl⟩

/-- Records that are committed go on with the log. -/
theorem Grown.inOrder {P : RecordType → Bytes → Prop} {store store' : DurableStore}
    (h : Grown P (some store) (some store')) (horder : InOrder store.disk)
    (hlast : store.last_sequence = endSequence store.disk) :
    InOrder store'.disk ∧ store'.last_sequence = endSequence store'.disk := by
  generalize hafter : some store' = after at h
  induction h generalizing store' with
  | refl =>
    obtain rfl := Option.some.inj hafter
    exact ⟨horder, hlast⟩
  | @append last type payload _ _ _ advances ih =>
    obtain rfl := Option.some.inj hafter
    obtain ⟨hbefore, hend⟩ := ih rfl
    refine ⟨?_, ?_⟩
    · refine DurableStore.Ascends.concat hbefore ?_
      show endSequence last.disk < last.last_sequence + 1
      rw [← hend]
      exact advances
    · show _ = lastSequence _ (last.disk.log ++ [_])
      rw [lastSequence_concat]
      rfl

end DurableStore

/-! ## What the files describe -/

/-- A state that a store describes: its snapshot with its log replayed. -/
def Describes (disk : Disk) (s : RuntimeState) : Prop :=
  ∃ config store s₀,
    restoreFrom (baseState config store) (snapshotPayload disk.snapshot) = .ok s₀ ∧
      disk.log.foldlM applyReplayedFrame s₀ = .ok s

/-- The bytes of a partial record describe nothing. -/
theorem describes_congr {disk disk' : Disk} (hsnapshot : disk'.snapshot = disk.snapshot)
    (hlog : disk'.log = disk.log) {s : RuntimeState} : Describes disk' s ↔ Describes disk s := by
  unfold Describes
  rw [hsnapshot, hlog]

/-- Records that are appended are replayed after the others. -/
theorem Describes.append {disk disk' : Disk} {added : List Frame} {s' : RuntimeState}
    (h : Describes disk' s') (hsnapshot : disk'.snapshot = disk.snapshot)
    (hlog : disk'.log = disk.log ++ added) :
    ∃ s, Describes disk s ∧ added.foldlM applyReplayedFrame s = .ok s' := by
  obtain ⟨config, store, s₀, hfrom, hreplay⟩ := h
  rw [hlog, List.foldlM_append] at hreplay
  obtain ⟨s, hbefore, hafter⟩ := bind_eq_ok.mp hreplay
  exact ⟨s, ⟨config, store, s₀, hsnapshot ▸ hfrom, hbefore⟩, hafter⟩

/-- A store without files describes a runtime that has nothing. -/
theorem describes_empty {s : RuntimeState} (h : Describes {} s) :
    ∃ config store, s = baseState config store := by
  obtain ⟨config, store, s₀, hfrom, hreplay⟩ := h
  unfold restoreFrom at hfrom
  rw [if_pos (by rfl)] at hfrom
  obtain rfl := Except.ok.inj hfrom
  exact ⟨config, store, (Except.ok.inj hreplay).symm⟩

/-- A state whose log ascends is recovered as its files describe it. -/
theorem recover_describes {config : RuntimeConfig} {disk disk' : Disk} {s : RuntimeState}
    (horder : InOrder disk) (h : recover config disk = (.ok s, disk'))
    (hpersist : config.persist = true) : Describes disk s := by
  rcases recover_ok h with ⟨-, recovery, hopen, hrestore, -⟩ | ⟨hvolatile, -⟩
  · obtain ⟨hreplayed, hpayload, -⟩ := openStore_inOrder horder hopen
    obtain ⟨s₀, hfrom, hreplay⟩ := restore_ok hrestore
    rw [hpayload] at hfrom
    rw [hreplayed] at hreplay
    exact ⟨config, recovery.store, s₀, hfrom, hreplay⟩
  · rw [hpersist] at hvolatile
    exact absurd hvolatile (by simp)

/-- What a snapshot that was just written describes. -/
theorem describes_saved {disk : Disk} {sequence : Sequence} {state : DurableState}
    {s : RuntimeState} (hsnapshot : disk.snapshot = some (sequence, encodeDurableState state))
    (hlog : disk.log = []) (hfits : (encodeDurableState state).length ≤ kMaxSnapshotPayloadBytes)
    (h : Describes disk s) :
    ∃ config store topology policy evidence boundary,
      decodePart Topology.decode state.topology_bytes = .ok topology ∧
      decodePart ContainmentPolicy.decode state.policy_bytes = .ok policy ∧
      decodePart EvidenceVector.decode state.evidence_bytes = .ok evidence ∧
      decodePart ContainmentBoundary.decode state.boundary_bytes = .ok boundary ∧
      s = (baseState config store).withDurable state topology policy evidence boundary := by
  obtain ⟨config, store, s₀, hfrom, hreplay⟩ := h
  rw [hlog] at hreplay
  obtain rfl := Except.ok.inj hreplay
  rw [hsnapshot] at hfrom
  change restoreFrom _ (encodeDurableState state) = _ at hfrom
  unfold restoreFrom at hfrom
  rw [if_neg (encodeDurableState_ne_nil state)] at hfrom
  obtain ⟨restored, topology, policy, evidence, boundary, hdecoded, htopology, hpolicy, hevidence,
    hboundary, rfl⟩ := restoreSnapshot_ok hfrom
  obtain rfl := decodeDurableState_recovers (hfits.trans_lt (by decide)) hdecoded
  exact ⟨config, store, topology, policy, evidence, boundary, htopology, hpolicy, hevidence,
    hboundary, rfl⟩

/-! ## What a startup writes -/

/-- The records that a startup has appended when it ends, or stops: of the configured topology and of
the policy, then of the epoch, then of the boots it fences. -/
inductive StartupLog (s : RuntimeState) : Bool → List Frame → Prop
  | quiet {added : List Frame}
      (quiet : ∀ frame ∈ added, frame.type = .topologyDefinition ∨ frame.type = .policyDefinition) :
    StartupLog s false added
  | advanced {added : List Frame}
      (quiet : ∀ frame ∈ added, frame.type = .topologyDefinition ∨ frame.type = .policyDefinition)
      (sequence : Sequence) :
    StartupLog s false (added ++ [⟨.epochAdvance, sequence, encodeEpochAdvance s.epoch s.boot⟩])
  | fenced {added : List Frame}
      (quiet : ∀ frame ∈ added, frame.type = .topologyDefinition ∨ frame.type = .policyDefinition)
      (sequence sequence' : Sequence)
      (fits : (encodeFence s.fenced_boots).length ≤ kMaxRecordPayloadBytes) :
    StartupLog s true (added ++ [⟨.epochAdvance, sequence, encodeEpochAdvance s.epoch s.boot⟩,
      ⟨.fence, sequence', encodeFence s.fenced_boots⟩])

/-- A durable state after records were appended: the incarnation is the same. -/
structure Appends (s s' : RuntimeState) (added : List Frame) : Prop where
  epoch : s'.epoch = s.epoch
  boot : s'.boot = s.boot
  fenced_boots : s'.fenced_boots = s.fenced_boots
  store : ∀ store ∈ s.store, ∃ store' ∈ s'.store, store'.disk.snapshot = store.disk.snapshot ∧
    store'.disk.log = store.disk.log ++ added

/-- Nothing is appended. -/
theorem Appends.refl (s : RuntimeState) : Appends s s [] :=
  ⟨rfl, rfl, rfl, fun store hstore => ⟨store, hstore, rfl, by simp⟩⟩

/-- Records appended after others. -/
theorem Appends.trans {s s₁ s₂ : RuntimeState} {added more : List Frame} (h : Appends s s₁ added)
    (h' : Appends s₁ s₂ more) : Appends s s₂ (added ++ more) := by
  refine ⟨h'.epoch.trans h.epoch, h'.boot.trans h.boot, h'.fenced_boots.trans h.fenced_boots,
    fun store hstore => ?_⟩
  obtain ⟨store₁, hstore₁, hsnapshot₁, hlog₁⟩ := h.store store hstore
  obtain ⟨store₂, hstore₂, hsnapshot₂, hlog₂⟩ := h'.store store₁ hstore₁
  exact ⟨store₂, hstore₂, hsnapshot₂.trans hsnapshot₁, by rw [hlog₂, hlog₁, List.append_assoc]⟩

/-- A commit appends its record, or nothing. -/
theorem appends_commit (env : Env) (type : RecordType) (payload : Bytes) {s : RuntimeState}
    (hdurable : s.store.isSome) :
    (∃ s' sequence, exec (commit env type payload) s = (.ok (), s') ∧ s'.store.isSome ∧
        payload.length ≤ kMaxRecordPayloadBytes ∧ Appends s s' [⟨type, sequence, payload⟩]) ∨
      ∃ status, exec (commit env type payload) s = (.error status, s) := by
  obtain ⟨store, hstore⟩ := Option.isSome_iff_exists.mp hdurable
  rcases exec_commit env type payload s with ⟨hcommit, hcommittable⟩ | ⟨hcommit, -⟩
  · left
    refine ⟨_, store.last_sequence + 1, hcommit, by simp [committed, hstore],
      (hcommittable store hstore).1, rfl, rfl, rfl, fun store' hstore' => ?_⟩
    obtain rfl := Option.some.inj (hstore.symm.trans hstore')
    exact ⟨store.appended type payload, by simp [committed, hstore], rfl, rfl⟩
  · exact Or.inr hcommit

/-- Taking in the configured topology appends its record at most. -/
theorem appends_takeConfigured (env : Env) {s : RuntimeState} (hdurable : s.store.isSome) :
    ∃ added, Appends s (exec (takeConfigured env) s).2 added ∧
      (exec (takeConfigured env) s).2.store.isSome ∧
      ∀ frame ∈ added, frame.type = .topologyDefinition ∨ frame.type = .policyDefinition := by
  unfold takeConfigured
  rw [exec_get_bind]
  split
  · rw [exec_bind, exec_lift]
    cases Topology.build s.config.topology with
    | error status => exact ⟨[], .refl s, hdurable, by simp⟩
    | ok t =>
      simp only [exec_modify_bind]
      have htaken : Appends s { s with topology := some t } [] :=
        ⟨rfl, rfl, rfl, fun store hstore => ⟨store, hstore, rfl, by simp⟩⟩
      rcases appends_commit env .topologyDefinition t.encode
        (show ({ s with topology := some t } : RuntimeState).store.isSome from hdurable) with
        ⟨s', sequence, hcommit, hdurable', -, happends⟩ | ⟨status, hcommit⟩
      · rw [hcommit]
        exact ⟨_, htaken.trans happends, hdurable', by simp⟩
      · rw [hcommit]
        exact ⟨[], htaken, hdurable, by simp⟩
  · exact ⟨[], .refl s, hdurable, by simp⟩

/-- A startup appends its records, in their order. -/
theorem appends_startup (env : Env) {s : RuntimeState} (hdurable : s.store.isSome) :
    ∃ added, StartupLog s (exec (startup env) s).1.isOk added ∧
      ∀ store ∈ s.store, ∃ store' ∈ (exec (startup env) s).2.store,
        store'.disk.snapshot = store.disk.snapshot ∧ store'.disk.log = store.disk.log ++ added := by
  obtain ⟨taken, htaken, hdurable₁, hquiet⟩ := appends_takeConfigured env hdurable
  unfold startup
  rw [exec_bind]
  -- the four commits one after the other; the first that fails ends the records
  generalize exec (takeConfigured env) s = start at htaken hdurable₁ ⊢
  obtain ⟨outcome, s₁⟩ := start
  cases outcome with
  | error status => exact ⟨taken, .quiet hquiet, htaken.store⟩
  | ok _ =>
    have hpolicy : Appends s { s₁ with policy := effectivePolicy s₁.policy } taken :=
      ⟨htaken.epoch, htaken.boot, htaken.fenced_boots, htaken.store⟩
    have hdurable₂ : ({ s₁ with policy := effectivePolicy s₁.policy } : RuntimeState).store.isSome :=
      hdurable₁
    simp only
    rw [exec_bind]
    unfold beginDurable
    rw [exec_get_bind, if_pos hdurable₁, exec_modify_bind, exec_get_bind]
    generalize ({ s₁ with policy := effectivePolicy s₁.policy } : RuntimeState) = s₂ at *
    rw [exec_bind]
    rcases appends_commit env .policyDefinition s₂.policy.encode hdurable₂ with
      ⟨s₃, sequence₃, hcommit₃, hdurable₃, -, happends₃⟩ | ⟨status, hcommit₃⟩
    · rw [hcommit₃]
      have hquiet₃ : ∀ frame ∈ taken ++ [⟨.policyDefinition, sequence₃, s₂.policy.encode⟩],
          frame.type = .topologyDefinition ∨ frame.type = .policyDefinition := by
        intro frame hframe
        rcases List.mem_append.mp hframe with hold | hnew
        · exact hquiet frame hold
        · rw [List.mem_singleton.mp hnew]
          exact Or.inr rfl
      have h₃ := hpolicy.trans happends₃
      simp only
      rw [exec_bind]
      rcases appends_commit env .epochAdvance (encodeEpochAdvance s₂.epoch s₂.boot) hdurable₃ with
        ⟨s₄, sequence₄, hcommit₄, hdurable₄, -, happends₄⟩ | ⟨status, hcommit₄⟩
      · rw [hcommit₄]
        have h₄ := h₃.trans happends₄
        simp only
        rcases appends_commit env .fence (encodeFence s₂.fenced_boots) hdurable₄ with
          ⟨s₅, sequence₅, hcommit₅, -, hfits, happends₅⟩ | ⟨status, hcommit₅⟩
        · rw [hcommit₅]
          have h₅ := h₄.trans happends₅
          rw [List.append_assoc, List.singleton_append, hpolicy.epoch, hpolicy.boot,
            hpolicy.fenced_boots] at h₅
          rw [hpolicy.fenced_boots] at hfits
          exact ⟨_, .fenced hquiet₃ sequence₄ sequence₅ hfits, h₅.store⟩
        · rw [hcommit₅]
          rw [hpolicy.epoch, hpolicy.boot] at h₄
          exact ⟨_, .advanced hquiet₃ sequence₄, h₄.store⟩
      · rw [hcommit₄]
        exact ⟨_, .quiet hquiet₃, h₃.store⟩
    · rw [hcommit₃]
      exact ⟨_, .quiet hquiet, hpolicy.store⟩

/-- What an open leaves of the files: a runtime that is not durable leaves them alone, and so does a
store that cannot be recovered; another appends the startup records of the state they describe. -/
theorem openRuntime_writes {config : RuntimeConfig} {env : Env} {boot : BootIdentity} {disk : Disk}
    (horder : InOrder disk) :
    (openRuntime config env boot disk).2.snapshot = disk.snapshot ∧
      ((openRuntime config env boot disk).2.log = disk.log ∧
          (∀ s, (openRuntime config env boot disk).1 = .ok s → s.store = none) ∨
        ∃ s₀ disk₀ added, recover config disk = (.ok s₀, disk₀) ∧ s₀.store.isSome ∧
          Describes disk s₀ ∧
          StartupLog (s₀.incarnate boot) (openRuntime config env boot disk).1.isOk added ∧
          (openRuntime config env boot disk).2.log = disk.log ++ added ∧
          ∀ s, (openRuntime config env boot disk).1 = .ok s → Started (s₀.incarnate boot) s) := by
  refine ⟨openRuntime_snapshot config env boot disk, ?_⟩
  have hdisk := recover_disk config disk
  have hstarted : ∀ s₀ disk₀ s, recover config disk = (.ok s₀, disk₀) →
      (openRuntime config env boot disk).1 = .ok s → Started (s₀.incarnate boot) s := by
    intro s₀ disk₀ s hrecover hok
    obtain ⟨s₁, disk₁, hrecover', hstarted, -⟩ := openRuntime_ok (Prod.ext hok rfl)
    obtain ⟨hsame, -⟩ := Prod.mk.inj (hrecover.symm.trans hrecover')
    obtain rfl := Except.ok.inj hsame
    exact hstarted
  cases hrecover : recover config disk with
  | mk outcome disk₀ =>
    specialize hstarted
    rw [hrecover] at hdisk
    cases outcome with
    | error status =>
      left
      have hopen : openRuntime config env boot disk = (.error status, disk₀) := by
        unfold openRuntime
        rw [hrecover]
      rw [hopen]
      refine ⟨?_, fun s hs => absurd hs (by simp)⟩
      rcases hdisk with ⟨rfl, -⟩ | ⟨recovery, -, hopened, rfl, -⟩
      · rfl
      · exact (openStore_spec hopened).log
    | ok s₀ =>
      rcases hdisk with ⟨rfl, hnone⟩ | ⟨recovery, hpersist, hopened, rfl, hstore⟩
      · left
        obtain ⟨-, hnone⟩ := hnone s₀ rfl
        -- without a store the startup has nowhere to write
        have hclosed : (exec (startup env) (s₀.incarnate boot)).2.store = none := by
          have hsome := (moves_startup env (s₀.incarnate boot)).isSome
          rw [show (s₀.incarnate boot).store = none from hnone] at hsome
          simpa using hsome
        refine ⟨?_, fun s hs => ?_⟩
        · unfold openRuntime
          rw [hrecover]
          simp [diskOr, hclosed]
        · have hsome := (hstarted s₀ _ s hrecover hs).same.isSome
          rw [show (s₀.incarnate boot).store = none from hnone] at hsome
          simpa using hsome
      · right
        have hstored : (s₀.incarnate boot).store = some recovery.store := hstore s₀ rfl
        -- what was recovered describes the files, and the startup appends to them
        obtain ⟨added, hlog, hstores⟩ := @appends_startup env (s₀.incarnate boot)
          (by rw [hstored]; rfl)
        obtain ⟨store', hstore', -, hlog'⟩ := hstores recovery.store hstored
        have hopen : openRuntime config env boot disk =
            ((exec (startup env) (s₀.incarnate boot)).1.map fun _ =>
              (exec (startup env) (s₀.incarnate boot)).2, store'.disk) := by
          unfold openRuntime
          rw [hrecover]
          simp [diskOr, Option.mem_def.mp hstore']
        have hisOk : (openRuntime config env boot disk).1.isOk =
            (exec (startup env) (s₀.incarnate boot)).1.isOk := by
          rw [hopen]
          cases (exec (startup env) (s₀.incarnate boot)).1 <;> rfl
        refine ⟨s₀, _, added, rfl, by simp [hstore s₀ rfl],
          recover_describes horder hrecover hpersist, hisOk ▸ hlog, ?_,
          fun s hs => hstarted s₀ _ s hrecover hs⟩
        rw [hopen, hlog', (openStore_spec hopened).log]

/-! ## Processes that stop -/

/-- An event, or a process that stops in the middle of an open. -/
inductive Incident
  | event (event : Event)
  /-- A process opens a durable runtime and stops where an append fails, or when it is done; bytes of a
  record may be left. -/
  | openStops (config : RuntimeConfig) (env : Env) (boot : BootIdentity) (torn_bytes : ℕ)

/-- The system after an incident. -/
def System.suffer (sys : System) : Incident → System
  | .event event => sys.next event
  | .openStops config env boot torn_bytes =>
    if sys.runtime.isNone ∧ config.persist = true then
      { disk := { (openRuntime config env boot sys.disk).2 with torn_bytes := torn_bytes } }
    else sys

/-- A process that stops while it opens a store leaves its files. -/
theorem suffer_openStops {sys : System} {config : RuntimeConfig}
    (h : sys.runtime.isNone ∧ config.persist = true) {env : Env} {boot : BootIdentity}
    {torn_bytes : ℕ} : sys.suffer (.openStops config env boot torn_bytes) =
      { disk := { (openRuntime config env boot sys.disk).2 with torn_bytes := torn_bytes } } :=
  if_pos h

/-- A process that does not get to the store leaves everything alone. -/
theorem suffer_openStops_live {sys : System} {config : RuntimeConfig}
    (h : ¬ (sys.runtime.isNone ∧ config.persist = true)) {env : Env} {boot : BootIdentity}
    {torn_bytes : ℕ} : sys.suffer (.openStops config env boot torn_bytes) = sys :=
  if_neg h

/-- The log goes on from the snapshot, and the store of the live runtime from the log. -/
structure Sequenced (sys : System) : Prop where
  synced : Synced sys
  inOrder : InOrder sys.disk
  last : ∀ s ∈ sys.runtime, ∀ store ∈ s.store, store.last_sequence = endSequence sys.disk

/-- Before anything happens. -/
theorem Sequenced.start : Sequenced {} :=
  ⟨fun s hs => absurd hs (by simp), trivial, fun s hs => absurd hs (by simp)⟩

/-- An open goes on with the log. -/
theorem openRuntime_inOrder {config : RuntimeConfig} {env : Env} {boot : BootIdentity} {disk : Disk}
    (horder : InOrder disk) : InOrder (openRuntime config env boot disk).2 ∧
      ∀ s, (openRuntime config env boot disk).1 = .ok s → ∀ store ∈ s.store,
        store.last_sequence = endSequence (openRuntime config env boot disk).2 := by
  rcases openRuntime_disk config env boot disk with ⟨hsame, hnone⟩ |
    ⟨recovery, store, -, hopen, hgrown, hdisk, hsome⟩
  · rw [hsame]
    exact ⟨horder, fun s hs store hstore => absurd hstore (by simp [(hnone s hs).2])⟩
  · obtain ⟨-, -, hsnapshot, hlog, hlast⟩ := openStore_inOrder horder hopen
    have hbefore : InOrder recovery.store.disk := by
      unfold InOrder
      rw [hsnapshot, hlog]
      exact horder
    obtain ⟨hafter, hend⟩ := hgrown.inOrder hbefore hlast
    rw [hdisk]
    refine ⟨hafter, fun s hs store' hstore' => ?_⟩
    rw [hsome s hs] at hstore'
    obtain rfl := Option.some.inj hstore'
    exact hend

/-- A call goes on with the log, or starts it anew after a snapshot. -/
theorem Sequenced.call {sys : System} (h : Sequenced sys) (env : Env) (call : Call) :
    Sequenced (sys.next (.call env call)) := by
  have hsynced := h.synced.next (.call env call)
  cases hrun : sys.runtime with
  | none =>
    rw [next_call_closed hrun]
    exact h
  | some s =>
    have hnext := runtime_call hrun env call
    rcases h.synced.calls hrun env call with ⟨-, hnone, hfiles⟩ |
      ⟨store, store', hstore, hdisk, hstore', hfiles, hgrown⟩
    · refine ⟨hsynced, hfiles ▸ h.inOrder, fun t ht store hstore => ?_⟩
      obtain rfl := Option.some.inj (hnext.symm.trans ht)
      exact absurd hstore (by simp [hnone])
    · have hlast := h.last s hrun store hstore
      have horder := h.inOrder
      rw [← hdisk] at hlast horder
      have hafter : InOrder store'.disk ∧ store'.last_sequence = endSequence store'.disk := by
        -- a record goes on with the log; a snapshot starts it anew after its own sequence
        rcases hgrown with hgrown | ⟨-, rfl | ⟨rfl, -⟩⟩
        · exact hgrown.inOrder horder hlast
        · exact ⟨horder, hlast⟩
        · exact ⟨trivial, rfl⟩
      refine ⟨hsynced, hfiles ▸ hafter.1, fun t ht store'' hstore'' => ?_⟩
      obtain rfl := Option.some.inj (hnext.symm.trans ht)
      obtain rfl := Option.some.inj (hstore'.symm.trans hstore'')
      exact hfiles ▸ hafter.2

/-- Every event keeps the order of the log. -/
theorem Sequenced.next {sys : System} (h : Sequenced sys) (event : Event) :
    Sequenced (sys.next event) := by
  cases event with
  | call env call => exact h.call env call
  | open_ config env boot =>
    have hsynced := h.synced.next (.open_ config env boot)
    cases hrun : sys.runtime with
    | some s =>
      rw [next_open_live hrun]
      exact h
    | none =>
      obtain ⟨horder, hlast⟩ := @openRuntime_inOrder config env boot sys.disk h.inOrder
      rw [next_open hrun] at hsynced ⊢
      exact ⟨hsynced, horder, fun s hs => hlast s (mem_toOption.mp hs)⟩
  | crash torn_bytes =>
    refine ⟨h.synced.next _, ?_, fun s hs => absurd hs (by simp [next_crash])⟩
    rw [next_crash]
    unfold System.diskAfterCrash
    split <;> exact h.inOrder

/-- Every incident keeps the order of the log. -/
theorem Sequenced.suffer {sys : System} (h : Sequenced sys) (incident : Incident) :
    Sequenced (sys.suffer incident) := by
  cases incident with
  | event event => exact h.next event
  | openStops config env boot torn_bytes =>
    by_cases hopens : sys.runtime.isNone ∧ config.persist = true
    · rw [suffer_openStops hopens]
      exact ⟨fun s hs => absurd hs (by simp), (openRuntime_inOrder h.inOrder).1,
        fun s hs => absurd hs (by simp)⟩
    · rw [suffer_openStops_live hopens]
      exact h

/-- What an open that finds no live process leaves. -/
theorem Sequenced.opens {sys : System} (h : Sequenced sys) (hrun : sys.runtime = none)
    (config : RuntimeConfig) (env : Env) (boot : BootIdentity) :
    (sys.next (.open_ config env boot)).disk.snapshot = sys.disk.snapshot ∧
      ((sys.next (.open_ config env boot)).disk.log = sys.disk.log ∧
          (∀ s ∈ (sys.next (.open_ config env boot)).runtime, s.store = none) ∨
        ∃ s₀ disk₀ added, recover config sys.disk = (.ok s₀, disk₀) ∧ s₀.store.isSome ∧
          Describes sys.disk s₀ ∧
          StartupLog (s₀.incarnate boot) (sys.next (.open_ config env boot)).runtime.isSome added ∧
          (sys.next (.open_ config env boot)).disk.log = sys.disk.log ++ added ∧
          ∀ s ∈ (sys.next (.open_ config env boot)).runtime,
            Started (s₀.incarnate boot) s ∧ s.store.isSome) := by
  rw [next_open hrun]
  obtain ⟨hsnapshot, hwrites⟩ := @openRuntime_writes config env boot sys.disk h.inOrder
  refine ⟨hsnapshot, ?_⟩
  rcases hwrites with ⟨hlog, hvolatile⟩ |
    ⟨s₀, disk₀, added, hrecover, hdurable, hdescribed, hadded, hlog, hstarted⟩
  · exact Or.inl ⟨hlog, fun s hs => hvolatile s (mem_toOption.mp hs)⟩
  · right
    refine ⟨s₀, disk₀, added, hrecover, hdurable, hdescribed, ?_, hlog, fun s hs => ?_⟩
    · have hdone : (openRuntime config env boot sys.disk).1.toOption.isSome =
          (openRuntime config env boot sys.disk).1.isOk := by
        cases (openRuntime config env boot sys.disk).1 <;> rfl
      rw [hdone]
      exact hadded
    · have hstart := hstarted s (mem_toOption.mp hs)
      exact ⟨hstart, hstart.same.isSome.trans hdurable⟩

end Fcfn
