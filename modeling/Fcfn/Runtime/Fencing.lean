import Fcfn.Runtime.Described

/-!
# Fencing earlier incarnations

An open fences the boot of the last epoch record that it replays. That boot is in no snapshot that is
read back: after a checkpoint the incarnation that wrote it is never fenced. Neither is the one before
an open that stops between the record of its epoch and that of its fences. `earlier_fenced` says that
nothing else goes wrong: where a store is only opened while its log still has the epoch records of all
incarnations, and the fences that each of them found, every earlier one is fenced. -/

namespace Fcfn

open Words Stateful RuntimeState DurableStore Tables

/-! ## What a log says about boots -/

/-- What replay keeps of the incarnations: the epoch, the last boot and the boots it fences. -/
structure Incarnations where
  epoch : CoordinatorEpoch := 0
  last_known_boot : Option BootIdentity := none
  fenced_boots : List BootId := []

/-- The incarnations of a state. -/
def RuntimeState.incarnations (s : RuntimeState) : Incarnations :=
  ⟨s.epoch, s.last_known_boot, s.fenced_boots⟩

/-- What one record does to the incarnations, if it is decoded. -/
def Incarnations.replay (v : Incarnations) (frame : Frame) : Incarnations :=
  match frame.type with
  | .epochAdvance =>
    match decodeEpochAdvance frame.payload with
    | .ok (epoch, boot) =>
      if v.epoch < epoch then { v with epoch := epoch, last_known_boot := some boot } else v
    | .error _ => v
  | .fence =>
    match decodeFence frame.payload with
    | .ok boots => { v with fenced_boots := boots.foldl fenceBoot v.fenced_boots }
    | .error _ => v
  | _ => v

/-- A record does to the incarnations of a state what it does to incarnations. -/
theorem ReplayedFrame.incarnations {s s' : RuntimeState} {frame : Frame}
    (h : ReplayedFrame s frame s') : s'.incarnations = s.incarnations.replay frame := by
  unfold Incarnations.replay
  cases h with
  | topology type =>
    rw [type]
    split <;> rfl
  | policy type =>
    rw [type]
    split <;> rfl
  -- only an epoch and a fence are about incarnations
  | detection type => rcases type with type | type <;> rw [type] <;> rfl
  | plan type => rw [type]; rfl
  | boundary type => rw [type]; rfl
  | transition type => rw [type]; rfl
  | attempt type =>
    have hsame : ∀ attempt : ApplyAttempt, (s.replayAttempt attempt).incarnations = s.incarnations := by
      intro attempt
      unfold replayAttempt
      split
      · rfl
      · split <;> rfl
    rw [hsame]
    rcases type with type | type | type <;> rw [type]
  | epoch type decoded =>
    rw [type]
    simp only [decoded]
    show RuntimeState.incarnations (if s.epoch < _ then _ else _) = if s.epoch < _ then _ else _
    split <;> rfl
  | fence type decoded =>
    rw [type]
    simp only [decoded]
    rfl
  | other type => rcases type with type | type | type | type <;> rw [type]

/-- A log does to the incarnations what its records do. -/
theorem replay_incarnations {log : List Frame} {s s' : RuntimeState}
    (h : log.foldlM applyReplayedFrame s = .ok s') :
    s'.incarnations = log.foldl Incarnations.replay s.incarnations := by
  induction log generalizing s with
  | nil =>
    obtain rfl := Except.ok.inj h
    rfl
  | cons frame log ih =>
    rw [List.foldlM_cons] at h
    obtain ⟨s₁, hframe, hrest⟩ := bind_eq_ok.mp h
    rw [List.foldl_cons, ih hrest, (applyReplayedFrame_ok hframe).incarnations]

/-- A store without a snapshot describes the incarnations of its log. -/
theorem describes_incarnations {disk : Disk} {s : RuntimeState} (hnone : disk.snapshot = none)
    (h : Describes disk s) : s.incarnations = disk.log.foldl Incarnations.replay {} := by
  obtain ⟨config, store, s₀, hfrom, hreplay⟩ := h
  rw [hnone] at hfrom
  obtain rfl : baseState config store = s₀ := Except.ok.inj hfrom
  exact replay_incarnations hreplay

/-! ## The recorded boots -/

/-- Note a record of an epoch, or the record of fences that follows one. -/
def noteBoot (recorded : List (BootId × Bool)) (frame : Frame) : List (BootId × Bool) :=
  match frame.type with
  | .epochAdvance =>
    match decodeEpochAdvance frame.payload with
    | .ok (_, boot) => recorded ++ [(boot.id, false)]
    | .error _ => recorded
  | .fence => recorded.dropLast ++ (recorded.getLast?.map fun last => (last.1, true)).toList
  | _ => recorded

/-- The boots whose epochs a log records, each with whether a record of fences follows before the
next. -/
def recordedBoots (log : List Frame) : List (BootId × Bool) := log.foldl noteBoot []

/-- The boots that were fenced: each by the next one, when it recorded its fences. -/
def fencedBy : List (BootId × Bool) → List BootId
  | before :: after :: rest => (if after.2 then [before.1] else []) ++ fencedBy (after :: rest)
  | [_] | [] => []

/-- The last of the recorded boots. -/
def lastBoot (recorded : List (BootId × Bool)) : Option BootId := recorded.getLast?.map Prod.fst

/-- One more boot fences the last one when it records its fences. -/
theorem fencedBy_concat (recorded : List (BootId × Bool)) (boot : BootId) (follows : Bool) :
    fencedBy (recorded ++ [(boot, follows)]) =
      fencedBy recorded ++ if follows then (lastBoot recorded).toList else [] := by
  induction recorded with
  | nil => cases follows <;> rfl
  | cons before rest ih =>
    cases rest with
    | nil => cases follows <;> rfl
    | cons after rest =>
      show _ ++ fencedBy (after :: rest ++ [(boot, follows)]) = _
      rw [ih, ← List.append_assoc]
      congr 2

/-- A fenced boot was recorded, and is not the last. -/
theorem fencedBy_sublist (recorded : List (BootId × Bool)) :
    (fencedBy recorded ++ (lastBoot recorded).toList).Sublist (recorded.map Prod.fst) := by
  induction recorded with
  | nil => exact List.Sublist.refl _
  | cons before rest ih =>
    cases rest with
    | nil => exact List.Sublist.refl _
    | cons after rest =>
      have hlast : lastBoot (before :: after :: rest) = lastBoot (after :: rest) := by
        unfold lastBoot
        rw [List.getLast?_cons_cons]
      rw [hlast, List.map_cons]
      show ((_ ++ fencedBy (after :: rest)) ++ _).Sublist _
      rw [List.append_assoc]
      cases after.2 with
      | true => exact ih.cons_cons before.1
      | false => exact ih.cons before.1

/-- The record of fences is there after each boot that follows one of those opened. -/
def FencesRecorded (opened : List BootId) (recorded : List (BootId × Bool)) : Prop :=
  recorded.IsChain fun before after => before.1 ∈ opened → after.2 = true

instance FencesRecorded.instDecidable (opened : List BootId) (recorded : List (BootId × Bool)) :
    Decidable (FencesRecorded opened recorded) :=
  inferInstanceAs (Decidable (List.IsChain _ _))

/-- Where the fences are recorded, a boot that was opened is fenced or the last one. -/
theorem FencesRecorded.mem {opened : List BootId} {recorded : List (BootId × Bool)}
    (h : FencesRecorded opened recorded) {boot : BootId} (hopened : boot ∈ opened)
    (hrecorded : boot ∈ recorded.map Prod.fst) :
    boot ∈ fencedBy recorded ++ (lastBoot recorded).toList := by
  induction recorded with
  | nil => exact absurd hrecorded (by simp)
  | cons before rest ih =>
    cases rest with
    | nil => exact hrecorded
    | cons after rest =>
      obtain ⟨hfollows, hrest⟩ := List.isChain_cons_cons.mp h
      have hlast : lastBoot (before :: after :: rest) = lastBoot (after :: rest) := by
        unfold lastBoot
        rw [List.getLast?_cons_cons]
      rw [hlast]
      show boot ∈ (_ ++ fencedBy (after :: rest)) ++ _
      rw [List.append_assoc]
      rcases List.mem_cons.mp hrecorded with rfl | hmem
      · rw [if_pos (hfollows hopened)]
        exact List.mem_append_left _ (List.mem_singleton.mpr rfl)
      · exact List.mem_append_right _ (ih hrest hmem)

/-- Where the fences are recorded and every boot was opened, all but the last are fenced. -/
theorem FencesRecorded.all {opened : List BootId} {recorded : List (BootId × Bool)}
    (h : FencesRecorded opened recorded) (hopened : ∀ boot ∈ recorded.map Prod.fst, boot ∈ opened) :
    fencedBy recorded ++ (lastBoot recorded).toList = recorded.map Prod.fst := by
  induction recorded with
  | nil => rfl
  | cons before rest ih =>
    cases rest with
    | nil => rfl
    | cons after rest =>
      obtain ⟨hfollows, hrest⟩ := List.isChain_cons_cons.mp h
      have hlast : lastBoot (before :: after :: rest) = lastBoot (after :: rest) := by
        unfold lastBoot
        rw [List.getLast?_cons_cons]
      rw [hlast, List.map_cons]
      show (_ ++ fencedBy (after :: rest)) ++ _ = _
      rw [List.append_assoc, if_pos (hfollows (hopened _ (by simp))),
        ih hrest fun boot hmem => hopened boot (List.mem_cons_of_mem _ hmem)]
      rfl

/-- Fencing boots that are fenced changes nothing. -/
theorem foldl_fenceBoot_of_subset {boots fenced : List BootId} (h : ∀ boot ∈ boots, boot ∈ fenced) :
    boots.foldl fenceBoot fenced = fenced := by
  induction boots with
  | nil => rfl
  | cons boot boots ih =>
    rw [List.foldl_cons, fenceBoot, if_pos (h boot List.mem_cons_self)]
    exact ih fun boot hmem => h boot (List.mem_cons_of_mem _ hmem)

/-! ## The records of a startup -/

/-- Other records say nothing about boots. -/
theorem quiet_boots {frame : Frame} (hepoch : frame.type ≠ .epochAdvance)
    (hfence : frame.type ≠ .fence) (v : Incarnations) (recorded : List (BootId × Bool)) :
    v.replay frame = v ∧ noteBoot recorded frame = recorded := by
  unfold Incarnations.replay noteBoot
  split
  · exact absurd ‹_› hepoch
  · exact absurd ‹_› hfence
  · exact ⟨rfl, rfl⟩

/-- A log of other records says nothing about boots. -/
theorem quiet_log {log : List Frame}
    (h : ∀ frame ∈ log, frame.type ≠ .epochAdvance ∧ frame.type ≠ .fence) (v : Incarnations)
    (recorded : List (BootId × Bool)) :
    log.foldl Incarnations.replay v = v ∧ log.foldl noteBoot recorded = recorded := by
  induction log with
  | nil => exact ⟨rfl, rfl⟩
  | cons frame log ih =>
    obtain ⟨hepoch, hfence⟩ := h frame List.mem_cons_self
    obtain ⟨hsame, hnote⟩ := quiet_boots hepoch hfence v recorded
    rw [List.foldl_cons, List.foldl_cons, hsame, hnote]
    exact ih fun frame hmem => h frame (List.mem_cons_of_mem _ hmem)

/-- The incarnations of a log are those of its recorded boots. -/
structure Incarnations.Agrees (v : Incarnations) (recorded : List (BootId × Bool)) : Prop where
  last : v.last_known_boot.map BootIdentity.id = lastBoot recorded
  fenced : v.fenced_boots = fencedBy recorded

/-- What an incarnation fences when it begins: what was fenced, and the last boot. -/
theorem incarnate_fenced {s : RuntimeState} {boot : BootIdentity} {recorded : List (BootId × Bool)}
    (h : s.incarnations.Agrees recorded)
    (hfresh : (recorded.map Prod.fst ++ [boot.id]).Nodup) :
    (s.incarnate boot).fenced_boots = fencedBy recorded ++ (lastBoot recorded).toList := by
  have hlast : s.last_known_boot.map BootIdentity.id = lastBoot recorded := h.last
  have hfenced : s.fenced_boots = fencedBy recorded := h.fenced
  obtain ⟨hnodup, -, hnew⟩ := List.nodup_append.mp hfresh
  have hapart := hnodup.sublist (fencedBy_sublist recorded)
  unfold RuntimeState.incarnate
  rw [← hlast]
  cases hboot : s.last_known_boot with
  | none => simpa using hfenced
  | some last =>
    rw [hboot] at hlast
    have hmem : last.id ∈ recorded.map Prod.fst := by
      refine (fencedBy_sublist recorded).subset (List.mem_append_right _ ?_)
      rw [← hlast]
      exact List.mem_singleton.mpr rfl
    -- the last boot is in the log and the new one is not, so it is fenced
    have hother : last.id ≠ boot.id := fun hsame => hnew _ hmem _ (List.mem_singleton.mpr rfl) hsame
    -- the last boot of the log has not been fenced by a later one
    have hunfenced : last.id ∉ fencedBy recorded := by
      intro hfenced
      rw [← hlast] at hapart
      exact (List.nodup_append.mp hapart).2.2 _ hfenced _ (List.mem_singleton.mpr rfl) rfl
    simp only [Option.map_some, Option.toList_some]
    rw [if_neg hother, hfenced, fenceBoot, if_neg hunfenced]

/-- The epoch record of an incarnation that begins from what a log says. -/
theorem replay_advanced {s : RuntimeState} {boot : BootIdentity} {recorded : List (BootId × Bool)}
    (h : s.incarnations.Agrees recorded) {sequence : Sequence} (hepoch : s.epoch + 1 ≠ 0) :
    (s.incarnations.replay ⟨.epochAdvance, sequence,
        encodeEpochAdvance (s.epoch + 1) boot⟩).Agrees (recorded ++ [(boot.id, false)]) ∧
      noteBoot recorded ⟨.epochAdvance, sequence, encodeEpochAdvance (s.epoch + 1) boot⟩ =
        recorded ++ [(boot.id, false)] := by
  have hdecoded : decodeEpochAdvance (encodeEpochAdvance (s.epoch + 1) boot) =
      .ok (s.epoch + 1, boot) := by
    rw [decodeEpochAdvance_encode, require, if_pos (by simpa using hepoch)]
    rfl
  -- an epoch counts only when it is newer, which it is unless the counter wraps
  have hlater : s.incarnations.epoch < s.epoch + 1 := by
    have hbelow : s.epoch.toNat + 1 < 2 ^ 64 := by
      by_contra hlimit
      refine hepoch (UInt64.toNat_inj.mp ?_)
      have hlt := s.epoch.toNat_lt
      rw [UInt64.toNat_add, UInt64.toNat_one, UInt64.toNat_zero]
      omega
    rw [UInt64.lt_iff_toNat_lt, UInt64.toNat_add, UInt64.toNat_one, Nat.mod_eq_of_lt hbelow]
    exact Nat.lt_succ_self _
  unfold Incarnations.replay noteBoot
  simp only [hdecoded]
  rw [if_pos hlater]
  refine ⟨⟨?_, ?_⟩, trivial⟩
  · simp [lastBoot]
  · rw [fencedBy_concat]
    simpa using h.fenced

/-- The record of the fences of an incarnation that begins from what a log says. -/
theorem replay_fenced {v : Incarnations} {recorded : List (BootId × Bool)} {boot : BootId}
    (h : v.Agrees (recorded ++ [(boot, false)]))
    (hnodup : ((recorded ++ [(boot, false)]).map Prod.fst).Nodup) {boots : List BootId}
    (hboots : boots = fencedBy recorded ++ (lastBoot recorded).toList) {sequence : Sequence}
    (hdecoded : decodeFence (encodeFence boots) = .ok boots) :
    (v.replay ⟨.fence, sequence, encodeFence boots⟩).Agrees (recorded ++ [(boot, true)]) ∧
      noteBoot (recorded ++ [(boot, false)]) ⟨.fence, sequence, encodeFence boots⟩ =
        recorded ++ [(boot, true)] := by
  have hfenced : v.fenced_boots = fencedBy recorded := by
    have hagrees := h.fenced
    rw [fencedBy_concat] at hagrees
    simpa using hagrees
  have hapart : (fencedBy recorded ++ (lastBoot recorded).toList).Nodup := by
    rw [List.map_append] at hnodup
    exact (List.nodup_append.mp hnodup).1.sublist (fencedBy_sublist recorded)
  unfold Incarnations.replay noteBoot
  simp only [hdecoded]
  refine ⟨⟨?_, ?_⟩, ?_⟩
  · have hlast := h.last
    simpa [lastBoot] using hlast
  · show boots.foldl fenceBoot v.fenced_boots = _
    rw [fencedBy_concat, if_pos rfl, hfenced, hboots, List.foldl_append,
      -- the record repeats what was fenced before, which changes nothing, and adds the last boot
      foldl_fenceBoot_of_subset fun _ hmem => hmem]
    cases hlast : lastBoot recorded with
    | none => simp
    | some last =>
      rw [hlast] at hapart
      have hunfenced : last ∉ fencedBy recorded := fun hmem =>
        (List.nodup_append.mp hapart).2.2 _ hmem _ (List.mem_singleton.mpr rfl) rfl
      show fenceBoot (fencedBy recorded) last = _
      rw [fenceBoot, if_neg hunfenced]
      rfl
  · simp

/-- The record of an epoch is replayed when the epoch has not wrapped around. -/
theorem epoch_of_replayed {s s' : RuntimeState} {sequence : Sequence} {epoch : CoordinatorEpoch}
    {boot : BootIdentity}
    (h : applyReplayedFrame s ⟨.epochAdvance, sequence, encodeEpochAdvance epoch boot⟩ = .ok s') :
    epoch ≠ 0 := by
  rintro rfl
  unfold applyReplayedFrame at h
  rw [decodeEpochAdvance_encode, require, if_neg (by simp)] at h
  exact absurd h (by simp [fail, bind, Except.bind, Except.map])

/-- The record of fences is replayed as the boots it was written for. -/
theorem fence_of_replayed {s s' : RuntimeState} {sequence : Sequence} {boots : List BootId}
    (h : applyReplayedFrame s ⟨.fence, sequence, encodeFence boots⟩ = .ok s')
    (hfits : (encodeFence boots).length ≤ kMaxRecordPayloadBytes) :
    decodeFence (encodeFence boots) = .ok boots := by
  cases applyReplayedFrame_ok h with
  | @fence decoded type hdecoded =>
    have hread := hdecoded
    unfold decodeFence Read.document at hread
    obtain rfl := (recovers_fence boots).runAll (hfits.trans_lt (by decide)) hread
    exact hdecoded
  | topology type | policy type | plan type | boundary type | transition type | epoch type =>
    exact absurd type (by simp)
  | detection type | attempt type | other type => exact absurd type (by simp)

/-- The records of a startup, replayed after the log that the incarnation began from, leave what the
log says then. -/
theorem StartupLog.boots {s₀ s s' : RuntimeState} {boot : BootIdentity} {completed : Bool}
    {added : List Frame} {recorded : List (BootId × Bool)}
    (h : StartupLog (s₀.incarnate boot) completed added)
    (hreplay : added.foldlM applyReplayedFrame s = .ok s')
    (hsame : s.incarnations = s₀.incarnations) (hagrees : s₀.incarnations.Agrees recorded)
    (hnodup : ((added.foldl noteBoot recorded).map Prod.fst).Nodup) :
    s'.incarnations.Agrees (added.foldl noteBoot recorded) := by
  have hafter := replay_incarnations hreplay
  rw [hsame] at hafter
  rw [hafter]
  have hpayload : encodeEpochAdvance (s₀.incarnate boot).epoch (s₀.incarnate boot).boot =
      encodeEpochAdvance (s₀.epoch + 1) boot := rfl
  -- topology and policy are about no boot
  have hothers : ∀ {frames : List Frame}, (∀ frame ∈ frames, frame.type = .topologyDefinition ∨
      frame.type = .policyDefinition) → ∀ v noted, frames.foldl Incarnations.replay v = v ∧
        frames.foldl noteBoot noted = noted := by
    intro frames hquiet
    refine quiet_log fun frame hframe => ?_
    rcases hquiet frame hframe with htype | htype <;> rw [htype] <;> simp
  cases h with
  | quiet quiet =>
    obtain ⟨hview, hnoted⟩ := hothers quiet s₀.incarnations recorded
    rw [hview, hnoted]
    exact hagrees
  | @advanced before quiet sequence =>
    obtain ⟨hview, hnoted⟩ := hothers quiet s₀.incarnations recorded
    rw [List.foldlM_append] at hreplay
    obtain ⟨s₁, -, hreplay⟩ := bind_eq_ok.mp hreplay
    rw [List.foldlM_cons] at hreplay
    obtain ⟨s₂, hadvanced, -⟩ := bind_eq_ok.mp hreplay
    rw [hpayload] at hadvanced
    obtain ⟨hreplayed, hnote⟩ := @replay_advanced s₀ boot recorded hagrees sequence
      (epoch_of_replayed hadvanced)
    rw [hpayload, List.foldl_append, List.foldl_append, hview, hnoted, List.foldl_cons,
      List.foldl_cons, List.foldl_nil, List.foldl_nil, hnote]
    exact hreplayed
  | @fenced before quiet sequence sequence' fits =>
    obtain ⟨hview, hnoted⟩ := hothers quiet s₀.incarnations recorded
    rw [List.foldlM_append] at hreplay
    obtain ⟨s₁, -, hreplay⟩ := bind_eq_ok.mp hreplay
    rw [List.foldlM_cons] at hreplay
    obtain ⟨s₂, hadvanced, hreplay⟩ := bind_eq_ok.mp hreplay
    rw [List.foldlM_cons] at hreplay
    obtain ⟨s₃, hfence, -⟩ := bind_eq_ok.mp hreplay
    rw [hpayload] at hadvanced
    obtain ⟨hreplayed, hnote⟩ := @replay_advanced s₀ boot recorded hagrees sequence
      (epoch_of_replayed hadvanced)
    rw [hpayload, List.foldl_append, hnoted, List.foldl_cons, hnote, List.foldl_cons,
      List.foldl_nil] at hnodup
    rw [hpayload, List.foldl_append, List.foldl_append, hview, hnoted, List.foldl_cons,
      List.foldl_cons, List.foldl_cons, List.foldl_cons, List.foldl_nil, List.foldl_nil, hnote]
    have hfresh : (recorded.map Prod.fst ++ [boot.id]).Nodup := by
      simpa [noteBoot] using hnodup
    obtain ⟨hfenced, hlast⟩ := @replay_fenced _ _ _ hreplayed (by simpa using hfresh) _
      (incarnate_fenced hagrees hfresh) sequence' (fence_of_replayed hfence fits)
    rw [hlast]
    exact hfenced

/-! ## Runs -/

/-- While a store has no snapshot, what it describes agrees with its log: the boots that were opened
are among those recorded, and when these differ, replay fences them. -/
def BootsTold (disk : Disk) (opened : List BootId) : Prop :=
  disk.snapshot = none → ∀ s, Describes disk s →
    opened.Sublist ((recordedBoots disk.log).map Prod.fst) ∧
      (((recordedBoots disk.log).map Prod.fst).Nodup →
        s.incarnations.Agrees (recordedBoots disk.log))

/-- The boots that a log records after more records. -/
theorem recordedBoots_append (log added : List Frame) :
    recordedBoots (log ++ added) = added.foldl noteBoot (recordedBoots log) :=
  List.foldl_append

/-- Records that say nothing about boots leave what is told. -/
theorem BootsTold.quiet {disk disk' : Disk} {opened : List BootId} {added : List Frame}
    (h : BootsTold disk opened) (hsnapshot : disk'.snapshot = disk.snapshot)
    (hlog : disk'.log = disk.log ++ added)
    (hquiet : ∀ frame ∈ added, frame.type ≠ .epochAdvance ∧ frame.type ≠ .fence) :
    BootsTold disk' opened := by
  intro hnone s' hs'
  obtain ⟨s, hs, hreplay⟩ := hs'.append hsnapshot hlog
  obtain ⟨hview, hnoted⟩ := quiet_log hquiet s.incarnations (recordedBoots disk.log)
  obtain ⟨hopened, hagrees⟩ := h (hsnapshot ▸ hnone) s hs
  rw [hlog, recordedBoots_append, hnoted, replay_incarnations hreplay, hview]
  exact ⟨hopened, hagrees⟩

/-- Files with the same snapshot and the same records tell the same. -/
theorem BootsTold.congr {disk disk' : Disk} {opened : List BootId} (h : BootsTold disk opened)
    (hsnapshot : disk'.snapshot = disk.snapshot) (hlog : disk'.log = disk.log) :
    BootsTold disk' opened :=
  h.quiet hsnapshot (hlog.trans (List.append_nil _).symm) (by simp)

/-- What an open that was completed records: its boot, with its fences. -/
theorem StartupLog.recorded {s₀ s s' : RuntimeState} {boot : BootIdentity} {added : List Frame}
    {recorded : List (BootId × Bool)} (h : StartupLog (s₀.incarnate boot) true added)
    (hreplay : added.foldlM applyReplayedFrame s = .ok s') :
    added.foldl noteBoot recorded = recorded ++ [(boot.id, true)] := by
  cases h with
  | @fenced before quiet sequence sequence' fits =>
    have hnoted := (@quiet_log before (fun frame hframe => by
      rcases quiet frame hframe with htype | htype <;> rw [htype] <;> simp) {} recorded).2
    rw [List.foldlM_append] at hreplay
    obtain ⟨s₁, -, hreplay⟩ := bind_eq_ok.mp hreplay
    rw [List.foldlM_cons] at hreplay
    obtain ⟨s₂, hadvanced, -⟩ := bind_eq_ok.mp hreplay
    have hdecoded := decodeEpochAdvance_encode (s₀.incarnate boot).epoch (s₀.incarnate boot).boot
    rw [require, if_pos (by simpa using epoch_of_replayed hadvanced)] at hdecoded
    rw [List.foldl_append, hnoted, List.foldl_cons, List.foldl_cons, List.foldl_nil]
    unfold noteBoot
    simp only [hdecoded]
    simp [Except.map, incarnate]

/-- A record keeps the boots that were recorded. -/
theorem noteBoot_sublist (recorded : List (BootId × Bool)) (frame : Frame) :
    (recorded.map Prod.fst).Sublist ((noteBoot recorded frame).map Prod.fst) := by
  unfold noteBoot
  split
  · split
    · rw [List.map_append]
      exact List.sublist_append_left _ _
    · exact List.Sublist.refl _
  · have hsame : (recorded.dropLast ++ (recorded.getLast?.map fun last => (last.1, true)).toList).map
        Prod.fst = recorded.map Prod.fst := by
      rcases List.eq_nil_or_concat recorded with rfl | ⟨before, last, rfl⟩
      · rfl
      · simp
    rw [hsame]
  · exact List.Sublist.refl _

/-- Records keep the boots that were recorded. -/
theorem noteBoots_sublist (added : List Frame) (recorded : List (BootId × Bool)) :
    (recorded.map Prod.fst).Sublist ((added.foldl noteBoot recorded).map Prod.fst) := by
  induction added generalizing recorded with
  | nil => exact List.Sublist.refl _
  | cons frame added ih => exact (noteBoot_sublist recorded frame).trans (ih _)

/-- The records of a startup leave what is told, and tell the boot when it was opened. -/
theorem BootsTold.startup {disk disk' : Disk} {opened : List BootId} {s₀ : RuntimeState}
    {boot : BootIdentity} {completed : Bool} {added : List Frame} (h : BootsTold disk opened)
    (hdescribed : Describes disk s₀) (hadded : StartupLog (s₀.incarnate boot) completed added)
    (hsnapshot : disk'.snapshot = disk.snapshot) (hlog : disk'.log = disk.log ++ added) :
    BootsTold disk' (if completed then opened ++ [boot.id] else opened) := by
  intro hnone s' hs'
  have hnone' : disk.snapshot = none := hsnapshot ▸ hnone
  obtain ⟨s, hs, hreplay⟩ := hs'.append hsnapshot hlog
  have hsame : s.incarnations = s₀.incarnations :=
    (describes_incarnations hnone' hs).trans (describes_incarnations hnone' hdescribed).symm
  obtain ⟨hopened, hagrees⟩ := h hnone' s₀ hdescribed
  have hkept := noteBoots_sublist added (recordedBoots disk.log)
  rw [hlog, recordedBoots_append]
  refine ⟨?_, fun hnodup =>
    hadded.boots hreplay hsame (hagrees (hnodup.sublist hkept)) hnodup⟩
  cases completed with
  | false => exact hopened.trans hkept
  | true =>
    rw [hadded.recorded hreplay, List.map_append]
    exact hopened.append (List.Sublist.refl _)

/-- A call leaves what is told. -/
theorem BootsTold.call {env : Env} {s s' : RuntimeState} {call : Call} {reply : Result Reply}
    {store store' : DurableStore} {opened : List BootId} (h : BootsTold store.disk opened)
    (ho : Outcome env s call reply s') (hstore : s.store = some store)
    (hstore' : s'.store = some store') : BootsTold store'.disk opened := by
  rcases ho.grown with hgrown | ⟨-, before, after, hbefore, hafter, hsaved⟩
  · rw [hstore, hstore'] at hgrown
    obtain ⟨hsnapshot, -, added, hlog, hadded⟩ := hgrown.disk
    refine h.quiet hsnapshot hlog fun frame hframe => ?_
    have hrecord := hadded frame hframe
    generalize frame.type = type at *
    generalize frame.payload = payload at *
    cases hrecord <;> simp
  · obtain rfl : store = before := Option.some.inj (hstore.symm.trans hbefore)
    obtain rfl : store' = after := Option.some.inj (hstore'.symm.trans hafter)
    rcases hsaved with rfl | ⟨rfl, -⟩
    · exact h
    · exact fun hnone => absurd hnone (by simp)

/-- Note the boot of a durable runtime that was opened. -/
def noteOpened (sys : System) (incident : Incident) (opened : List BootId) : List BootId :=
  match incident with
  | .event (.open_ config env boot) =>
    if sys.runtime.isNone then
      (sys.next (.open_ config env boot)).runtime.elim opened fun s =>
        if s.store.isSome then opened ++ [s.boot.id] else opened
    else opened
  | .event (.call _ _) | .event (.crash _) | .openStops _ _ _ _ => opened

/-- A property of a durable runtime that an open has opened, of the files that it found, of the boots
that were opened before it and of its own. -/
def OnOpened (P : Disk → List BootId → BootIdentity → RuntimeState → Prop)
    (p : System × List BootId) : Incident → Prop
  | .event (.open_ config env boot) => p.1.runtime = none →
    ∀ s ∈ (p.1.next (.open_ config env boot)).runtime, s.store.isSome → P p.1.disk p.2 boot s
  | .event (.call _ _) | .event (.crash _) | .openStops _ _ _ _ => True

instance OnOpened.instDecidable {P : Disk → List BootId → BootIdentity → RuntimeState → Prop}
    [∀ disk opened boot s, Decidable (P disk opened boot s)] (p : System × List BootId) :
    (incident : Incident) → Decidable (OnOpened P p incident)
  | .event (.open_ config env boot) => inferInstanceAs (Decidable (p.1.runtime = none →
      ∀ s ∈ (p.1.next (.open_ config env boot)).runtime, s.store.isSome → P p.1.disk p.2 boot s))
  | .event (.call _ _) | .event (.crash _) | .openStops _ _ _ _ => inferInstanceAs (Decidable True)

/-- After an open, the newest of the earlier boots are fenced, and the boot itself is not. -/
def EarlierFenced : System × List BootId → Incident → Prop :=
  OnOpened fun _ opened _ s =>
    (∀ id ∈ dropExcess kMaxFencedBoots opened, id ∈ s.fenced_boots) ∧ s.boot.id ∉ s.fenced_boots

instance EarlierFenced.instDecidable (p : System × List BootId) (incident : Incident) :
    Decidable (EarlierFenced p incident) :=
  have (opened : List BootId) (s : RuntimeState) :
      Decidable (∀ id ∈ dropExcess kMaxFencedBoots opened, id ∈ s.fenced_boots) :=
    List.decidableBAll _ _
  OnOpened.instDecidable p incident

/-- The files still tell which boots to fence: there is no snapshot, the boots that the log records and
the new one differ, each that follows one that was opened has recorded its fences, and the list has
room for all of them unless all were opened. -/
structure TellsBoots (disk : Disk) (opened : List BootId) (boot : BootIdentity) : Prop where
  unsaved : disk.snapshot = none
  fresh : ((recordedBoots disk.log).map Prod.fst ++ [boot.id]).Nodup
  follows : FencesRecorded opened (recordedBoots disk.log)
  room : (recordedBoots disk.log).length ≤ kMaxFencedBoots ∨
    (recordedBoots disk.log).length = opened.length

instance TellsBoots.instDecidable (disk : Disk) (opened : List BootId) (boot : BootIdentity) :
    Decidable (TellsBoots disk opened boot) :=
  decidable_of_iff (disk.snapshot = none ∧
      ((recordedBoots disk.log).map Prod.fst ++ [boot.id]).Nodup ∧
      FencesRecorded opened (recordedBoots disk.log) ∧
      ((recordedBoots disk.log).length ≤ kMaxFencedBoots ∨
        (recordedBoots disk.log).length = opened.length))
    ⟨fun ⟨unsaved, fresh, follows, room⟩ => ⟨unsaved, fresh, follows, room⟩,
      fun ⟨unsaved, fresh, follows, room⟩ => ⟨unsaved, fresh, follows, room⟩⟩

/-- A durable runtime is opened only on files that still tell which boots to fence. -/
def OpensTold : System × List BootId → Incident → Prop :=
  OnOpened fun disk opened boot _ => TellsBoots disk opened boot

instance OpensTold.instDecidable (p : System × List BootId) (incident : Incident) :
    Decidable (OpensTold p incident) :=
  OnOpened.instDecidable p incident

/-- Where the files tell which boots to fence, an incarnation fences them. -/
theorem TellsBoots.fenced {disk : Disk} {opened : List BootId} {boot : BootIdentity}
    {s : RuntimeState} (h : TellsBoots disk opened boot) (htold : BootsTold disk opened)
    (hdescribed : Describes disk s) :
    (∀ id ∈ dropExcess kMaxFencedBoots opened,
        id ∈ dropExcess kMaxFencedBoots (s.incarnate boot).fenced_boots) ∧
      boot.id ∉ (s.incarnate boot).fenced_boots := by
  obtain ⟨hopened, hagrees⟩ := htold h.unsaved s hdescribed
  obtain ⟨hnodup, -, hnew⟩ := List.nodup_append.mp h.fresh
  rw [incarnate_fenced (hagrees hnodup) h.fresh]
  have hsublist := fencedBy_sublist (recordedBoots disk.log)
  constructor
  · rcases h.room with hroom | hall
    · have hlength := hsublist.length_le
      rw [List.length_map] at hlength
      rw [dropExcess_of_le (hlength.trans hroom)]
      intro id hid
      have hmem := mem_of_mem_dropExcess hid
      exact h.follows.mem hmem (hopened.subset hmem)
    · have hsame : opened = (recordedBoots disk.log).map Prod.fst :=
        hopened.eq_of_length (by rw [List.length_map, hall])
      rw [h.follows.all fun id hid => hsame ▸ hid, ← hsame]
      exact fun id hid => hid
  · exact fun hmem => hnew _ (hsublist.subset hmem) _ (List.mem_singleton.mpr rfl) rfl

/-- What keeps earlier incarnations fenced. -/
structure FencesKept (p : System × List BootId) : Prop where
  sequenced : Sequenced p.1
  told : BootsTold p.1.disk p.2

/-- Starting an incarnation cuts the fences down to their bound. -/
theorem Started.fenced_boots {s s' : RuntimeState} (h : Started s s') :
    s'.fenced_boots = dropExcess kMaxFencedBoots s.fenced_boots := by
  cases h with
  | volatile hconfigured hstore =>
    cases hconfigured with
    | kept => simp only [evictBoundedTables]
    | built =>
      unfold configure
      rw [if_neg (by simp [hstore])]
      simp only [evictBoundedTables]
  | durable hconfigured hstore =>
    cases hconfigured with
    | kept => simp only [began, committed, evictBoundedTables]
    | built =>
      unfold configure
      rw [if_pos hstore]
      simp only [began, committed, evictBoundedTables]

/-- Opening a store keeps the fences, and fences the earlier incarnations when the files tell them. -/
theorem FencesKept.open_ {sys : System} {opened : List BootId} (h : FencesKept (sys, opened))
    {config : RuntimeConfig} {env : Env} {boot : BootIdentity} :
    FencesKept (sys.next (.open_ config env boot),
        noteOpened sys (.event (.open_ config env boot)) opened) ∧
      (OpensTold (sys, opened) (.event (.open_ config env boot)) →
        EarlierFenced (sys, opened) (.event (.open_ config env boot))) := by
  have hsequenced := h.sequenced.next (.open_ config env boot)
  show FencesKept (_, if sys.runtime.isNone then _ else _) ∧
    ((sys.runtime = none → _) → (sys.runtime = none → _))
  cases hrun : sys.runtime with
  | some s =>
    rw [next_open_live hrun]
    exact ⟨h, fun _ hnone => absurd hnone (by simp)⟩
  | none =>
    rw [Option.isNone_none, if_pos rfl]
    rw [next_open hrun] at hsequenced ⊢
    obtain ⟨hsnapshot, hwrites⟩ := @openRuntime_writes config env boot sys.disk h.sequenced.inOrder
    generalize openRuntime config env boot sys.disk = result at *
    obtain ⟨outcome, disk⟩ := result
    rcases hwrites with ⟨hlog, hvolatile⟩ |
      ⟨s₀, disk₀, added, -, hdurable, hdescribed, hadded, hlog, hstarted⟩
    · have htold : BootsTold disk opened := h.told.congr hsnapshot hlog
      cases outcome with
      | error status => exact ⟨⟨hsequenced, htold⟩, fun _ _ s hs => absurd hs (by simp [Except.toOption])⟩
      | ok s =>
        have hnone : s.store = none := hvolatile s rfl
        refine ⟨⟨hsequenced, ?_⟩, fun _ _ s' hs' hdurable => ?_⟩
        · show BootsTold disk (if s.store.isSome then _ else _)
          rw [if_neg (by simp [hnone])]
          exact htold
        · obtain rfl := Option.some.inj hs'
          exact absurd hdurable (by simp [hnone])
    · have htold := h.told.startup hdescribed hadded hsnapshot hlog
      cases outcome with
      | error status => exact ⟨⟨hsequenced, htold⟩, fun _ _ s hs => absurd hs (by simp [Except.toOption])⟩
      | ok s =>
        have hsame := (hstarted s rfl).same
        have hboot : s.boot = boot := hsame.boot
        refine ⟨⟨hsequenced, ?_⟩, fun htells _ s' hs' hstore => ?_⟩
        · show BootsTold disk (if s.store.isSome then _ else _)
          rw [if_pos (hsame.isSome.trans hdurable), hboot]
          exact htold
        · obtain ⟨hfenced, hself⟩ := (htells rfl s' hs' hstore).fenced h.told hdescribed
          obtain rfl := Option.some.inj hs'
          rw [(hstarted s rfl).fenced_boots, hboot]
          exact ⟨hfenced, fun hmem => hself (mem_of_mem_dropExcess hmem)⟩

/-- A call keeps the fences. -/
theorem FencesKept.call {sys : System} {opened : List BootId} (h : FencesKept (sys, opened))
    (env : Env) (call : Call) : FencesKept (sys.next (.call env call), opened) := by
  refine ⟨h.sequenced.next _, ?_⟩
  cases hrun : sys.runtime with
  | none =>
    rw [next_call_closed hrun]
    exact h.told
  | some s =>
    rcases h.sequenced.synced.calls hrun env call with ⟨-, -, hfiles⟩ |
      ⟨store, store', hstore, hdisk, hstore', hfiles, -⟩
    · exact hfiles ▸ h.told
    · have htold : BootsTold store.disk opened := hdisk ▸ h.told
      exact hfiles ▸ htold.call (perform_outcome env s call) hstore hstore'

/-- A process that stops in the middle of an open keeps the fences. -/
theorem FencesKept.openStops {sys : System} {opened : List BootId} (h : FencesKept (sys, opened))
    (config : RuntimeConfig) (env : Env) (boot : BootIdentity) (torn_bytes : ℕ) :
    FencesKept (sys.suffer (.openStops config env boot torn_bytes), opened) := by
  refine ⟨h.sequenced.suffer (.openStops config env boot torn_bytes), ?_⟩
  by_cases hopens : sys.runtime.isNone ∧ config.persist = true
  · rw [suffer_openStops hopens]
    obtain ⟨hsnapshot, hwrites⟩ := @openRuntime_writes config env boot sys.disk h.sequenced.inOrder
    rcases hwrites with ⟨hlog, -⟩ | ⟨s₀, -, added, -, -, hdescribed, hadded, hlog, -⟩
    · exact h.told.congr hsnapshot hlog
    · intro hnone s hs
      obtain ⟨hopened, hagrees⟩ := h.told.startup hdescribed hadded hsnapshot hlog hnone s
        ((describes_congr rfl rfl).mp hs)
      refine ⟨List.Sublist.trans ?_ hopened, hagrees⟩
      split
      · exact List.sublist_append_left _ _
      · exact List.Sublist.refl _
  · rw [suffer_openStops_live hopens]
    exact h.told

/-- In every run of a durable store, in which processes may stop anywhere, where the store is only
opened on files that still tell the earlier boots, an incarnation that was opened fences them. -/
theorem earlier_fenced {incidents : List Incident}
    (h : Runs.Along (Runs.observe System.suffer noteOpened) OpensTold ({}, []) incidents) :
    Runs.Along (Runs.observe System.suffer noteOpened) EarlierFenced ({}, []) incidents := by
  have hstart : FencesKept ({}, []) := by
    refine ⟨.start, fun _ s hs => ⟨List.nil_sublist _, fun _ => ?_⟩⟩
    obtain ⟨config, store, rfl⟩ := describes_empty hs
    exact ⟨rfl, rfl⟩
  refine Runs.Along.of_invariant (I := FencesKept) ?_ hstart h
  rintro ⟨sys, opened⟩ incident hkept htells
  cases incident with
  | openStops config env boot torn_bytes =>
    exact ⟨hkept.openStops config env boot torn_bytes, trivial⟩
  | event event =>
    cases event with
    | open_ config env boot => exact ⟨hkept.open_.1, hkept.open_.2 htells⟩
    | call env call => exact ⟨hkept.call env call, trivial⟩
    | crash torn_bytes =>
      exact ⟨⟨hkept.sequenced.next _, hkept.told.congr (diskAfterCrash_snapshot sys torn_bytes)
        (diskAfterCrash_log sys torn_bytes)⟩, trivial⟩

/-- Three incarnations, and a process that stops before it has recorded its epoch. -/
theorem earlier_fenced_restarts :
    Runs.Along (Runs.observe System.suffer noteOpened) EarlierFenced ({}, [])
      [.event (Sample.opens 1), .event (.crash 0), .event (Sample.opens 2), .event (.crash 3),
        .openStops Sample.config { Sample.env with append_fails := fun sequence => sequence == 9 }
          (Sample.boot 3) 7,
        .event (Sample.opens 4)] :=
  earlier_fenced (by decide +kernel)

/-- After a checkpoint the next open does not know which boot to fence. -/
theorem saved_boot_unfenced :
    ¬ ∀ incidents, Runs.Along (Runs.observe System.suffer noteOpened) EarlierFenced ({}, [])
      incidents := by
  intro h
  have hfenced := h [.event (Sample.opens 1), .event (Sample.does .checkpoint), .event (.crash 0),
    .event (Sample.opens 2)]
  revert hfenced
  decide +kernel

end Fcfn
