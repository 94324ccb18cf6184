import Fcfn.Runtime.Ingestion

/-!
# The published and the durable sequence

The runtime keeps the sequence of its last record beside the one its store keeps: a commit takes it
over, a checkpoint saves it, and an open restores it from the snapshot and from the log. A runtime
that has run is in step with its store (`InStep`), and so is what is recovered from its files, whatever
a failed append left in the log. A detection is then recorded under the sequence that its record
names, and the check that guards this never fails. -/

namespace Fcfn

open Words Stateful RuntimeState DurableStore

/-! ## Recovery -/

/-- The snapshot holds a state that was saved under the sequence of the snapshot. -/
def SavedUnder (disk : Disk) : Prop :=
  ∀ sequence payload, disk.snapshot = some (sequence, payload) →
    ∃ state : DurableState, payload = encodeDurableState state ∧ state.sequence = sequence

/-- A scan never falls behind where it started. -/
theorem scan_last_le {log : List Frame} {scan scan' : Scan}
    (h : log.foldlM scanFrame scan = .ok scan') : scan.last_sequence ≤ scan'.last_sequence := by
  induction log generalizing scan with
  | nil =>
    rw [List.foldlM_nil, pure_eq_ok] at h
    rw [h]
    exact UInt64.le_refl _
  | cons frame log ih =>
    rw [List.foldlM_cons, bind_eq_ok] at h
    obtain ⟨scan₁, hstep, hrest⟩ := h
    refine UInt64.le_trans ?_ (ih hrest)
    rw [scanFrame, require_bind_eq_ok] at hstep
    obtain ⟨-, hstep⟩ := hstep
    split at hstep
    · rename_i hlater
      rw [pure_eq_ok] at hstep
      rw [← hstep]
      exact UInt64.le_of_lt hlater
    · rw [pure_eq_ok] at hstep
      rw [← hstep]
      exact UInt64.le_refl _

/-- A store is opened with a sequence that its snapshot does not exceed. -/
theorem openStore_last_le {disk : Disk} {allow : Bool} {recovery : Recovery}
    (h : openStore disk allow = .ok recovery) :
    snapshotSequence disk.snapshot ≤ recovery.store.last_sequence ∧
      recovery.snapshot_payload = snapshotPayload disk.snapshot := by
  rw [openStore, bind_eq_ok] at h
  obtain ⟨⟨sequence, payload⟩, hread, h⟩ := h
  obtain ⟨rfl, rfl⟩ := readSnapshot_ok hread
  simp only [require_bind_eq_ok] at h
  obtain ⟨-, h⟩ := h
  rw [bind_eq_ok] at h
  obtain ⟨scan, hscan, h⟩ := h
  rw [require_bind_eq_ok, pure_eq_ok] at h
  obtain ⟨-, rfl⟩ := h
  exact ⟨scan_last_le hscan, rfl⟩

/-- No record changes the published sequence. -/
theorem ReplayedFrame.inStep {s s' : RuntimeState} {frame : Frame} (h : ReplayedFrame s frame s')
    (hs : s.InStep) : s'.InStep := by
  have hsame : s'.sequence = s.sequence := by
    cases h with
    | topology => split <;> rfl
    | policy => split <;> rfl
    | epoch => split <;> rfl
    | attempt =>
      unfold replayAttempt
      split
      · rfl
      · split <;> rfl
    | _ => rfl
  intro store hstore
  rw [h.store.1] at hstore
  exact (hs store hstore).trans hsame.symm

/-- What is recovered is in step with its store: the snapshot was saved under a sequence that the scan
starts from. -/
theorem recover_inStep {config : RuntimeConfig} {disk disk' : Disk} {s : RuntimeState}
    (hsaved : SavedUnder disk) (h : recover config disk = (.ok s, disk')) : s.InStep := by
  rcases recover_ok h with ⟨-, recovery, hopen, hrestore, -⟩ | ⟨-, rfl, -⟩
  · obtain ⟨s₀, hfrom, hreplay⟩ := restore_ok hrestore
    refine replay_induction (fun _ _ _ _ hframe hs => hframe.inStep hs) hreplay ?_
    obtain ⟨hle, hpayload⟩ := openStore_last_le hopen
    have hfits := (openStore_spec hopen).fits
    unfold restoreFrom at hfrom
    split at hfrom
    · obtain rfl := Except.ok.inj hfrom
      intro store hstore
      obtain rfl := Option.some.inj hstore
      rfl
    · rename_i hnonempty
      obtain ⟨restored, -, -, -, -, hdecoded, -, -, -, -, rfl⟩ := restoreSnapshot_ok hfrom
      intro store hstore
      obtain rfl := Option.some.inj hstore
      cases hsnapshot : disk.snapshot with
      | none =>
        rw [hsnapshot] at hpayload
        exact absurd hpayload hnonempty
      | some p =>
        obtain ⟨sequence, payload⟩ := p
        -- the state was saved under the sequence that the scan starts from
        obtain ⟨state, rfl, rfl⟩ := hsaved sequence payload hsnapshot
        rw [hsnapshot] at hpayload hle
        rw [show recovery.snapshot_payload = encodeDurableState state from hpayload] at hdecoded hfits
        obtain rfl := decodeDurableState_recovers (hfits.trans_lt (by decide)) hdecoded
        have hle : restored.sequence ≤ recovery.store.last_sequence := hle
        show recovery.store.last_sequence = if restored.sequence ≤ recovery.store.last_sequence then
          recovery.store.last_sequence else restored.sequence
        rw [if_pos hle]
  · exact fun store hstore => absurd hstore (by simp [RuntimeState.initial])

/-! ## Runs -/

/-- An incident, or a change of the log while no process has the store open: what an append that
failed has left behind may be read as anything. -/
inductive Mishap
  | incident (incident : Incident)
  | leftover (log : List Frame) (torn_bytes : ℕ)

/-- The system after a mishap. -/
def System.endure (sys : System) : Mishap → System
  | .incident incident => sys.suffer incident
  | .leftover log torn_bytes =>
    if sys.runtime.isNone then { disk := { sys.disk with log := log, torn_bytes := torn_bytes } }
    else sys

/-- The sequences that a system keeps agree. -/
structure Agreed (sys : System) : Prop where
  synced : Synced sys
  live : Live RuntimeState.InStep sys
  saved : SavedUnder sys.disk

/-- Before anything happens. -/
theorem Agreed.start : Agreed {} :=
  ⟨fun s hs => absurd hs (by simp), fun s hs => absurd hs (by simp),
    fun _ _ h => absurd h (by simp)⟩

/-- A system without a live process, whose snapshot has not changed. -/
theorem Agreed.stopped {sys : System} (h : Agreed sys) {disk : Disk}
    (hsnapshot : disk.snapshot = sys.disk.snapshot) : Agreed { disk := disk } := by
  refine ⟨fun s hs => absurd hs (by simp), fun s hs => absurd hs (by simp), ?_⟩
  unfold SavedUnder
  rw [hsnapshot]
  exact h.saved

/-- A call keeps the sequences in agreement: a checkpoint saves the sequence of the store. -/
theorem Agreed.call {sys : System} (h : Agreed sys) (env : Env) (call : Call) :
    Agreed (sys.next (.call env call)) := by
  have hsynced := h.synced.next (.call env call)
  cases hrun : sys.runtime with
  | none =>
    rw [next_call_closed hrun]
    exact h
  | some s =>
    have hnext := runtime_call hrun env call
    refine ⟨hsynced, fun t ht => ?_, ?_⟩
    · obtain rfl := Option.some.inj (hnext.symm.trans ht)
      exact (perform_outcome env s call).inStep (h.live s hrun)
    rcases h.synced.calls hrun env call with ⟨-, -, hfiles⟩ |
      ⟨store, store', hstore, hdisk, -, hfiles, hgrown⟩
    · exact hfiles ▸ h.saved
    · have hsaved : SavedUnder store.disk := hdisk ▸ h.saved
      rw [hfiles]
      -- only a checkpoint changes the snapshot, and it saves what is published
      rcases hgrown with hgrown | ⟨-, rfl | ⟨rfl, -⟩⟩
      · unfold SavedUnder
        rw [hgrown.disk.1]
        exact hsaved
      · exact hsaved
      · intro sequence payload hsnapshot
        obtain ⟨rfl, rfl⟩ := Prod.mk.inj (Option.some.inj hsnapshot)
        exact ⟨s.durable, rfl, (h.live s hrun store hstore).symm⟩

/-- Every event keeps the sequences in agreement. -/
theorem Agreed.next {sys : System} (h : Agreed sys) (event : Event) : Agreed (sys.next event) := by
  cases event with
  | call env call => exact h.call env call
  | open_ config env boot =>
    have hsynced := h.synced.next (.open_ config env boot)
    cases hrun : sys.runtime with
    | some s =>
      rw [next_open_live hrun]
      exact h
    | none =>
      rw [next_open hrun] at hsynced ⊢
      refine ⟨hsynced, fun s hs => ?_, ?_⟩
      -- an open ends with the commit of its fence, whatever was recovered
      · obtain ⟨_, _, -, hstarted, -⟩ := openRuntime_ok (Prod.ext (mem_toOption.mp hs) rfl)
        exact hstarted.inStep
      unfold SavedUnder
      rw [openRuntime_snapshot]
      exact h.saved
  | crash torn_bytes =>
    rw [next_crash]
    exact h.stopped (diskAfterCrash_snapshot sys torn_bytes)

/-- So does every mishap. -/
theorem Agreed.endure {sys : System} (h : Agreed sys) (mishap : Mishap) :
    Agreed (sys.endure mishap) := by
  cases mishap with
  | incident incident =>
    cases incident with
    | event event => exact h.next event
    | openStops config env boot torn_bytes =>
      show Agreed (sys.suffer (.openStops config env boot torn_bytes))
      by_cases hopens : sys.runtime.isNone ∧ config.persist = true
      · rw [suffer_openStops hopens]
        exact h.stopped (openRuntime_snapshot config env boot sys.disk)
      · rw [suffer_openStops_live hopens]
        exact h
  | leftover log torn_bytes =>
    unfold System.endure
    simp only
    split
    · exact h.stopped rfl
    · exact h

/-- The sequences agree after every run. -/
theorem Agreed.run (mishaps : List Mishap) : Agreed (Runs.exec System.endure {} mishaps) :=
  Runs.invariant (fun _ mishap h _ => h.endure mishap) .start
    (Runs.Along.of_forall (P := fun _ _ => True) (fun _ _ => trivial) _ mishaps)

/-! ## Detections -/

/-- A result that is no internal error. -/
def NoFault {α : Type} (r : Result α) : Prop := ∀ status, r = .error status → status.code ≠ .internal

/-- A condition that is refused with another code. -/
theorem noFault_require {condition : Bool} {code : StatusCode} {message : String}
    (h : code ≠ .internal) : NoFault (require condition code message) := by
  intro status hstatus
  unfold require fail at hstatus
  split at hstatus
  · exact absurd hstatus (by simp)
  · rw [← Except.error.inj hstatus]
    exact h

/-- One step after another. -/
theorem NoFault.bind {α β : Type} {r : Result α} {f : α → Result β} (hr : NoFault r)
    (hf : ∀ a, NoFault (f a)) : NoFault (r >>= f) := by
  cases r with
  | error status => exact fun other h => hr other (by rw [← Except.error.inj h])
  | ok a => exact hf a

/-- A value is no error. -/
theorem noFault_ok {α : Type} (a : α) : NoFault (.ok a : Result α) :=
  fun _ h => absurd h (by simp)

/-- Merging an observation gives no internal error. -/
theorem noFault_merged (v : EvidenceVector) (observation : FailureObservation) :
    NoFault (v.merged observation) := by
  -- every check of a vector is a refusal of its own, and none of them is internal
  have hcheck (previous : Option ResourceId) (entries : List EvidenceEntry) :
      NoFault (EvidenceVector.checkEntries previous entries) := by
    induction entries generalizing previous with
    | nil => exact noFault_ok _
    | cons entry rest ih =>
      exact (noFault_require (by simp)).bind fun _ => (noFault_require (by simp)).bind fun _ =>
        (noFault_require (by simp)).bind fun _ => ih _
  have hbuild (entries : List EvidenceEntry) : NoFault (EvidenceVector.build entries) := by
    have harrange : NoFault (EvidenceVector.arrange entries) :=
      (noFault_require (by simp)).bind fun _ => (hcheck _ _).bind fun _ => noFault_ok _
    intro status h
    unfold EvidenceVector.build at h
    split at h
    · rename_i other hother
      obtain rfl := Except.error.inj h
      exact harrange _ hother
    · exact absurd h (by simp)
  refine (noFault_require (by simp)).bind fun _ => (noFault_require (by simp)).bind fun _ => ?_
  simp only
  split
  · exact hbuild _
  · split
    · exact fun status h => by rw [← Except.error.inj h]; simp
    split
    · split
      · exact fun status h => by rw [← Except.error.inj h]; simp
      · exact noFault_ok _
    · exact hbuild _

/-- A commit gives no internal error. -/
theorem noFault_of_mem_commitErrors {status : Status} (h : status ∈ commitErrors) :
    status.code ≠ .internal := by
  simp only [commitErrors, List.mem_cons, List.not_mem_nil, or_false] at h
  rcases h with rfl | rfl | rfl <;> simp

/-- Evidence is merged with an observation that has a generation. -/
theorem generation_of_merged {v merged : EvidenceVector} {observation : FailureObservation}
    (h : v.merged observation = .ok merged) : (observation.generation != 0) = true := by
  simp only [EvidenceVector.merged, require_bind_eq_ok] at h
  exact h.2.1

/-- A detection that leaves the evidence as it is. -/
theorem exec_confirms {s : RuntimeState} {env : Env} {observation : FailureObservation}
    {merged : EvidenceVector} (hmerged : s.evidence.merged observation = .ok merged)
    (hsame : merged.digest = s.evidence.digest) :
    exec (perform env (.recordDetection observation)) s =
      (.ok (.detection (s.detectionRecord observation)), s.confirm observation.resource) := by
  have hgen := generation_of_merged hmerged
  simp [perform, recordDetection, exec_bind, exec_lift, exec_get, exec_modify, hgen,
    require, hmerged, hsame, Except.map]

/-- What a runtime that is in step with its store makes of a detection: it is refused, or it leaves the
evidence as it is and nothing is recorded, or it is recorded and published. -/
theorem RuntimeState.InStep.exec_detection {s : RuntimeState} (hs : s.InStep) (env : Env)
    (observation : FailureObservation) :
    (∃ status, (exec (perform env (.recordDetection observation)) s).1 = .error status ∧
        status.code ≠ .internal) ∨
      ∃ merged, s.evidence.merged observation = .ok merged ∧
        ((merged.digest = s.evidence.digest ∧
            exec (perform env (.recordDetection observation)) s =
              (.ok (.detection (s.detectionRecord observation)), s.confirm observation.resource)) ∨
          (merged.digest ≠ s.evidence.digest ∧
            exec (perform env (.recordDetection observation)) s =
              (.ok (.detection (s.detectionRecord observation)), ((s.committed .detectionRecord
                (encodeDetection (s.detectionRecord observation))).publishEvidence merged
                  (s.detectionRecord observation)).confirm observation.resource))) := by
  cases hmerged : s.evidence.merged observation with
  | error status =>
    have hcode : status.code ≠ .internal := noFault_merged s.evidence observation status hmerged
    refine Or.inl ?_
    cases hgen : observation.generation != 0 with
    | false =>
      exact ⟨⟨.invalidArgument, "observation generation must be non-zero"⟩, by
        simp [perform, recordDetection, exec_bind, exec_lift, hgen, require, fail], by simp⟩
    | true =>
      refine ⟨status, ?_, hcode⟩
      by_cases hconflict : status.code = .conflict
      · simp [perform, recordDetection, exec_bind, exec_lift, exec_get, hgen, require,
          hmerged, hconflict]
      · simp [perform, recordDetection, exec_bind, exec_lift, exec_get, hgen, require,
          hmerged, hconflict]
  | ok merged =>
    by_cases hsame : merged.digest = s.evidence.digest
    · exact Or.inr ⟨merged, rfl, Or.inl ⟨hsame, exec_confirms hmerged hsame⟩⟩
    · by_cases hcommittable : s.Committable env (encodeDetection (s.detectionRecord observation))
      · exact Or.inr ⟨merged, rfl, Or.inr ⟨hsame, exec_changes hs hcommittable hmerged hsame⟩⟩
      · have hgen := generation_of_merged hmerged
        obtain ⟨status, hstatus, hc⟩ := exec_commit_fails hcommittable .detectionRecord
        refine Or.inl ⟨status, ?_, noFault_of_mem_commitErrors hstatus⟩
        simp [perform, recordDetection, exec_bind, exec_lift, exec_get, hgen, require,
          hmerged, hsame, hc]

/-- A durable runtime and its store are at one sequence, and the records of its detections are at the
sequences that they name. -/
structure SequencesAgree (sys : System) : Prop where
  /-- What is published is what is durable. -/
  published : ∀ s ∈ sys.runtime, ∀ store ∈ s.store, s.sequence = store.last_sequence
  /-- So it is in what a process recovers from the files, before it records anything. -/
  recovered : ∀ config s disk, recover config sys.disk = (.ok s, disk) →
    ∀ store ∈ s.store, s.sequence = store.last_sequence
  /-- No detection is refused because the two have diverged. -/
  undiverged : ∀ env observation, sys.reply (.call env (.recordDetection observation)) ≠
    fail .internal "durable sequence diverged from the published sequence"
  /-- A detection that changes the evidence is in the log, under the sequence that its record names. -/
  recorded : ∀ s ∈ sys.runtime, ∀ store ∈ s.store, ∀ env observation merged record,
    s.evidence.merged observation = .ok merged → merged.digest ≠ s.evidence.digest →
    sys.reply (.call env (.recordDetection observation)) = .ok (.detection record) →
    (sys.next (.call env (.recordDetection observation))).disk.log =
      sys.disk.log ++ [⟨.detectionRecord, record.sequence, encodeDetection record⟩]
  /-- One that confirms the evidence is not recorded. -/
  confirmed : ∀ s ∈ sys.runtime, ∀ store ∈ s.store, ∀ env observation merged,
    s.evidence.merged observation = .ok merged → merged.digest = s.evidence.digest →
    (sys.next (.call env (.recordDetection observation))).disk = sys.disk

/-- A detection that is recorded is the next record of the log. -/
theorem Agreed.recorded {sys : System} (h : Agreed sys) {s : RuntimeState}
    (hrun : sys.runtime = some s) {store : DurableStore} (hstore : s.store = some store) {env : Env}
    {observation : FailureObservation} {merged : EvidenceVector} {record : DetectionRecord}
    (hmerged : s.evidence.merged observation = .ok merged)
    (hchanged : merged.digest ≠ s.evidence.digest)
    (hreply : sys.reply (.call env (.recordDetection observation)) = .ok (.detection record)) :
    (sys.next (.call env (.recordDetection observation))).disk.log =
      sys.disk.log ++ [⟨.detectionRecord, record.sequence, encodeDetection record⟩] := by
  have hfiles : store.disk = sys.disk := h.synced s hrun store hstore
  have hsequence : store.last_sequence = s.sequence := h.live s hrun store hstore
  rw [reply_call hrun] at hreply
  rw [next_call hrun]
  rcases RuntimeState.InStep.exec_detection (h.live s hrun) env observation with
    ⟨status, hrefused, -⟩ | ⟨merged', hmerged', ⟨hsame, -⟩ | ⟨-, hexec⟩⟩
  · rw [hrefused] at hreply
    exact absurd hreply (by simp)
  · rw [hmerged] at hmerged'
    exact absurd (Except.ok.inj hmerged' ▸ hsame) hchanged
  · rw [hexec] at hreply ⊢
    -- the record names the sequence after the published one, and the store appends at the same
    obtain rfl : s.detectionRecord observation = record := by simpa using hreply
    have hcommitted : (s.committed .detectionRecord
        (encodeDetection (s.detectionRecord observation))).store = some (store.appended
          .detectionRecord (encodeDetection (s.detectionRecord observation))) := by
      unfold RuntimeState.committed
      rw [hstore]
      rfl
    show (((s.committed .detectionRecord (encodeDetection (s.detectionRecord observation))).store.map
      DurableStore.disk).getD sys.disk).log = _
    rw [hcommitted]
    show store.disk.log ++ [⟨.detectionRecord, store.last_sequence + 1, _⟩] = _
    rw [hfiles, hsequence]
    rfl

/-- The resource is reported as failed. -/
def Sample.detected : List Event := [Sample.opens 1, Sample.detects 1 .present]

/-- It is reported as recovered; the append fails but leaves its record, and the process restarts. -/
def Sample.restarted : List Mishap :=
  Sample.detected.map (fun event => .incident (.event event)) ++
    [.incident (.event (.call { Sample.env with append_fails := fun _ => true }
        (.recordDetection ⟨Sample.resource, .absent, 2, Digest.zero⟩))),
      .incident (.event (.crash 0)),
      .leftover (Runs.exec System.next {} (Sample.detected ++ [Sample.detects 2 .absent])).disk.log 0,
      .incident (.event (Sample.opens 2))]

/-- After every run of a durable runtime its sequence is the one of its store, the check for a
divergence never fails, and a detection is recorded under the sequence that its record names. -/
theorem sequences_agree (mishaps : List Mishap) :
    SequencesAgree (Runs.exec System.endure {} mishaps) := by
  have h := Agreed.run mishaps
  generalize Runs.exec System.endure {} mishaps = sys at h ⊢
  refine ⟨fun s hs store hstore => (h.live s hs store hstore).symm,
    fun config s disk hrecover store hstore => (recover_inStep h.saved hrecover store hstore).symm,
    fun env observation => ?_, ?_, ?_⟩
  · cases hrun : sys.runtime with
    | none =>
      rw [System.reply, System.step, hrun]
      simp [fail]
    | some s =>
      rw [reply_call hrun]
      rcases RuntimeState.InStep.exec_detection (h.live s hrun) env observation with
        ⟨status, hrefused, hcode⟩ | ⟨_, -, ⟨-, hexec⟩ | ⟨-, hexec⟩⟩
      · rw [hrefused]
        -- the failed check would be an internal error, and no refusal is one
        rintro hdiverged
        rw [Except.error.inj hdiverged] at hcode
        exact hcode rfl
      · rw [hexec]
        simp [fail]
      · rw [hexec]
        simp [fail]
  · exact fun s hs store hstore env observation merged record hmerged hchanged hreply =>
      h.recorded hs hstore hmerged hchanged hreply
  · intro s hs store hstore env observation merged hmerged hsame
    have hfiles : store.disk = sys.disk := h.synced s hs store hstore
    rw [next_call hs, exec_confirms hmerged hsame]
    show (s.store.map DurableStore.disk).getD sys.disk = sys.disk
    rw [Option.mem_def.mp hstore]
    exact hfiles

/-- The restarted runtime has recovered the record of the append that failed, and is in step. -/
theorem sequences_agree_restarted :
    ∃ s store, (Runs.exec System.endure {} Sample.restarted).runtime = some s ∧
      s.store = some store ∧ s.detections.length = 2 ∧ s.sequence = store.last_sequence := by
  have hlive : (Runs.exec System.endure {} Sample.restarted).runtime.any (fun s =>
      s.store.isSome && s.detections.length == 2) = true := by
    decide +kernel
  obtain ⟨s, hs, hlive⟩ := Option.any_eq_true _ _ |>.mp hlive
  rw [Bool.and_eq_true, beq_iff_eq] at hlive
  obtain ⟨store, hstore⟩ := Option.isSome_iff_exists.mp hlive.1
  exact ⟨s, store, hs, hstore, hlive.2, (sequences_agree Sample.restarted).published s hs store hstore⟩

end Fcfn
