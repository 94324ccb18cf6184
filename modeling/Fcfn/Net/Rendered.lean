import Fcfn.Net.Dispatch
import Fcfn.Net.JsonWriter

/-!
# Documents and their values

The documents of the coordinator are the compact texts of values: every combinator that builds one
is what the writer writes for a value (`Renders`), so a document of the runtime is a document of
JSON, with keys that are names. -/

namespace Fcfn

open Words JsonText

/-! ## Names -/

/-- Lower-case letters and underscores. -/
def isName (key : Bytes) : Bool :=
  !key.isEmpty && key.all fun c => (byteOf 'a' ≤ c && c ≤ byteOf 'z') || c = byteOf '_'

mutual

/-- The keys of a value are names. -/
def JsonText.Value.Named : Value → Prop
  | .array elements => ElementsNamed elements
  | .object members => MembersNamed members
  | _ => True

def ElementsNamed : List Value → Prop
  | [] => True
  | v :: rest => v.Named ∧ ElementsNamed rest

def MembersNamed : List (Bytes × Value) → Prop
  | [] => True
  | (key, v) :: rest => isName key = true ∧ v.Named ∧ MembersNamed rest

end

/-! ## Texts of values -/

/-- Bytes are the compact text of a value. -/
structure Renders (bytes : Bytes) (v : Value) : Prop where
  fits : v.Fits
  named : v.Named
  text : ∀ depth, render (Json.style false) depth v = bytes

/-- Bytes are the compact text of some value. -/
def IsDocument (bytes : Bytes) : Prop := ∃ v, Renders bytes v

mutual

/-- A text on one line does not depend on how deep it stands. -/
theorem render_compact (depth depth' : ℕ) (v : Value) :
    render (Json.style false) depth v = render (Json.style false) depth' v := by
  cases v with
  | null => rfl
  | flag b => cases b <;> rfl
  | number n => rfl
  | text bytes => rfl
  | array elements =>
    rw [render, render, renderElements_compact (depth + 1) (depth' + 1) elements]
    rfl
  | object members =>
    rw [render, render, renderMembers_compact (depth + 1) (depth' + 1) members]
    rfl

theorem renderElements_compact (depth depth' : ℕ) (vs : List Value) :
    renderElements (Json.style false) depth vs = renderElements (Json.style false) depth' vs := by
  cases vs with
  | nil => rfl
  | cons v vs =>
    rw [renderElements, renderElements, render_compact depth depth' v,
      renderElements_compact depth depth' vs]
    rfl

theorem renderMembers_compact (depth depth' : ℕ) (ms : List (Bytes × Value)) :
    renderMembers (Json.style false) depth ms = renderMembers (Json.style false) depth' ms := by
  cases ms with
  | nil => rfl
  | cons m ms =>
    rw [renderMembers, renderMembers, render_compact depth depth' m.2,
      renderMembers_compact depth depth' ms]
    rfl

end

namespace Renders

/-- The text that the writer writes for a value. -/
theorem of_calls {v : Value} (hfits : v.Fits) (hnamed : v.Named) :
    Renders ((JsonWriter.new false).calls v.calls).out v := by
  refine ⟨hfits, hnamed, fun depth => ?_⟩
  rw [JsonWriter.out_of_describes false (JsonCall.describes_calls hfits)]
  exact render_compact depth 0 v

/-- A text of a value is what the writer writes for it. -/
theorem eq_calls {bytes : Bytes} {v : Value} (h : Renders bytes v) :
    bytes = ((JsonWriter.new false).calls v.calls).out := by
  rw [JsonWriter.out_of_describes false (JsonCall.describes_calls h.fits), ← h.text 0]
  rfl

theorem of_text (bytes : Bytes) : Renders (Json.text bytes) (.text bytes) :=
  ⟨trivial, trivial, fun _ => rfl⟩

theorem of_number (n : UInt64) : Renders (Json.number n) (.number n.toNat) := by
  refine ⟨?_, trivial, fun _ => rfl⟩
  have hlt := n.toNat_lt
  constructor
  · omega
  · omega

theorem of_flag (b : Bool) : Renders (Json.flag b) (.flag b) := by
  refine ⟨trivial, trivial, fun _ => ?_⟩
  cases b <;> rfl

theorem separated_cons (element next : Bytes) (rest : List Bytes) :
    Json.separated (element :: next :: rest) =
      element ++ 0x2c :: Json.separated (next :: rest) := by
  unfold Json.separated
  rw [List.intersperse_cons_cons]
  rfl

theorem of_elements {elements : List Bytes} {values : List Value}
    (h : List.Forall₂ Renders elements values) : ElementsFit values ∧ ElementsNamed values ∧
      ∀ depth, renderElements (Json.style false) depth values = Json.separated elements := by
  induction h with
  | nil => exact ⟨trivial, trivial, fun _ => rfl⟩
  | cons hv hrest ih =>
    obtain ⟨hfits, hnamed, htext⟩ := ih
    refine ⟨⟨hv.fits, hfits⟩, ⟨hv.named, hnamed⟩, fun depth => ?_⟩
    rw [renderElements, hv.text]
    cases hrest with
    | nil => simp [Json.separated, Json.style]
    | cons hnext hothers =>
      rw [separated_cons, ← htext depth]
      simp [Json.style]

theorem of_members {members : List (String × Bytes)} {values : List (Bytes × Value)}
    (h : List.Forall₂ (fun m w => isName w.1 = true ∧ bytesOf m.1 = w.1 ∧ Renders m.2 w.2)
      members values) : MembersFit values ∧ MembersNamed values ∧
      ∀ depth, renderMembers (Json.style false) depth values =
        Json.separated (members.map fun m => Json.member m.1 m.2) := by
  induction h with
  | nil => exact ⟨trivial, trivial, fun _ => rfl⟩
  | @cons m w members values hv hrest ih =>
    obtain ⟨key, v⟩ := w
    obtain ⟨hname, hkey, hv⟩ := hv
    obtain ⟨hfits, hnamed, htext⟩ := ih
    refine ⟨⟨hv.fits, hfits⟩, ⟨hname, hv.named, hnamed⟩, fun depth => ?_⟩
    dsimp only at hkey hv
    rw [renderMembers, hv.text, ← hkey, List.map_cons]
    cases hrest with
    | nil =>
      simp [Json.separated, Json.style, Json.member]
      rfl
    | cons hnext hothers =>
      rw [List.map_cons, separated_cons,
        ← List.map_cons (f := fun m : String × Bytes => Json.member m.1 m.2), ← htext depth]
      simp [Json.style, Json.member]
      rfl

/-- An array of texts of values. -/
theorem of_array {elements : List Bytes} {values : List Value}
    (h : List.Forall₂ Renders elements values) : Renders (Json.array elements) (.array values) := by
  obtain ⟨hfits, hnamed, htext⟩ := of_elements h
  refine ⟨hfits, hnamed, fun depth => ?_⟩
  rw [render, htext]
  unfold Json.array
  simp [Json.style]

/-- An object of texts of values under names. -/
theorem of_object {members : List (String × Bytes)} {values : List (Bytes × Value)}
    (h : List.Forall₂ (fun m w => isName w.1 = true ∧ bytesOf m.1 = w.1 ∧ Renders m.2 w.2)
      members values) : Renders (Json.object members) (.object values) := by
  obtain ⟨hfits, hnamed, htext⟩ := of_members h
  refine ⟨hfits, hnamed, fun depth => ?_⟩
  rw [render, htext]
  unfold Json.object
  simp [Json.style]

end Renders

/-! ## Documents of the runtime -/

namespace IsDocument

@[simp] theorem of_text (bytes : Bytes) : IsDocument (Json.text bytes) := ⟨_, Renders.of_text bytes⟩

@[simp] theorem of_string (s : String) : IsDocument (Json.string s) := of_text _

@[simp] theorem of_digest (d : Digest) : IsDocument (Json.digest d) := of_text _

@[simp] theorem of_number (n : UInt64) : IsDocument (Json.number n) := ⟨_, Renders.of_number n⟩

@[simp] theorem of_count (n : ℕ) : IsDocument (Json.count n) := of_number _

@[simp] theorem of_flag (b : Bool) : IsDocument (Json.flag b) := ⟨_, Renders.of_flag b⟩

theorem of_array {elements : List Bytes} (h : ∀ element ∈ elements, IsDocument element) :
    IsDocument (Json.array elements) := by
  have hvalues : ∃ values, List.Forall₂ Renders elements values := by
    induction elements with
    | nil => exact ⟨[], .nil⟩
    | cons element elements ih =>
      obtain ⟨v, hv⟩ := h element List.mem_cons_self
      obtain ⟨values, hvalues⟩ := ih fun other hother => h other (List.mem_cons_of_mem _ hother)
      exact ⟨v :: values, .cons hv hvalues⟩
  obtain ⟨values, hvalues⟩ := hvalues
  exact ⟨_, .of_array hvalues⟩

/-- Documents under names of the source are the texts of values. -/
theorem exists_values {members : List (String × Bytes)}
    (hnames : ((members.map Prod.fst).all fun name => isName (bytesOf name)) = true)
    (h : ∀ m ∈ members, IsDocument m.2) : ∃ values : List (Bytes × Value),
      List.Forall₂ (fun m w => isName w.1 = true ∧ bytesOf m.1 = w.1 ∧ Renders m.2 w.2)
        members values := by
  induction members with
  | nil => exact ⟨[], .nil⟩
  | cons m members ih =>
    rw [List.map_cons, List.all_cons, Bool.and_eq_true] at hnames
    obtain ⟨v, hv⟩ := h m List.mem_cons_self
    obtain ⟨values, hvalues⟩ :=
      ih hnames.2 fun other hother => h other (List.mem_cons_of_mem _ hother)
    exact ⟨(bytesOf m.1, v) :: values, .cons ⟨hnames.1, rfl, hv⟩ hvalues⟩

/-- An object of documents under names of the source. -/
theorem of_object {members : List (String × Bytes)}
    (hnames : ((members.map Prod.fst).all fun name => isName (bytesOf name)) = true)
    (h : ∀ m ∈ members, IsDocument m.2) : IsDocument (Json.object members) := by
  obtain ⟨values, hvalues⟩ := exists_values hnames h
  exact ⟨_, .of_object hvalues⟩

@[simp] theorem of_ids (list : List ResourceId) : IsDocument (Json.ids list) := by
  refine of_array fun element helement => ?_
  obtain ⟨id, -, rfl⟩ := List.mem_map.mp helement
  exact of_text id

/-- A document is not empty. -/
theorem ne_nil {document : Bytes} (h : IsDocument document) : document ≠ [] := by
  obtain ⟨v, hv⟩ := h
  obtain ⟨c, body, heq, -⟩ := render_eq_cons (Json.style false) 0 v
  rw [← hv.text 0, heq]
  exact List.cons_ne_nil c body

/-- A list of documents, each of the element that it stands for. -/
theorem of_map {α : Type} {f : α → Bytes} (h : ∀ a, IsDocument (f a)) (list : List α) :
    IsDocument (Json.array (list.map f)) := by
  refine of_array fun element helement => ?_
  obtain ⟨a, -, rfl⟩ := List.mem_map.mp helement
  exact h a

end IsDocument

theorem ExplanationItem.isDocument (item : ExplanationItem) : IsDocument item.toJson := by
  refine .of_object (by simp only [List.map_cons, List.map_nil]; decide) ?_
  simp

theorem ExplanationItem.isDocument_plan (item : ExplanationItem) : IsDocument item.toPlanJson := by
  refine .of_object (by simp only [List.map_cons, List.map_nil]; decide) ?_
  simp

theorem EvidenceEntry.isDocument (entry : EvidenceEntry) : IsDocument entry.toJson := by
  refine .of_object (by simp only [List.map_cons, List.map_nil]; decide) ?_
  simp

theorem DetectionRecord.isDocument (record : DetectionRecord) : IsDocument record.toJson := by
  refine .of_object (by simp only [List.map_cons, List.map_nil]; decide) ?_
  simp

theorem AuthorityVector.isDocument (authority : AuthorityVector) : IsDocument authority.toJson := by
  refine .of_object (by
    simp only [bootMembers, List.map_append, List.map_cons, List.map_nil]
    decide) ?_
  simp [bootMembers]

theorem StartupReport.isDocument (report : StartupReport) : IsDocument report.toJson := by
  refine .of_object (by
    simp only [bootMembers, List.map_append, List.map_cons, List.map_nil]
    decide) ?_
  simp [bootMembers, IsDocument.of_map ExplanationItem.isDocument]

theorem RuntimeStats.isDocument (stats : RuntimeStats) : IsDocument stats.toJson := by
  refine .of_object (by simp only [List.map_cons, List.map_nil]; decide) ?_
  simp

theorem AuthorizationRecord.isDocument (authorization : AuthorizationRecord) :
    IsDocument authorization.toJson := by
  refine .of_object (by
    simp only [bootMembers, List.map_append, List.map_cons, List.map_nil]
    decide) ?_
  simp [bootMembers]

theorem ApplyAttempt.isDocument (attempt : ApplyAttempt) : IsDocument attempt.toJson := by
  refine .of_object (by
    simp only [bootMembers, List.map_append, List.map_cons, List.map_nil]
    decide) ?_
  simp [bootMembers, IsDocument.of_map ExplanationItem.isDocument]

theorem BoundaryMember.isDocument (member : BoundaryMember) : IsDocument member.toJson := by
  refine .of_object (by simp only [List.map_cons, List.map_nil]; decide) ?_
  simp

theorem ContainmentBoundary.isDocument (b : ContainmentBoundary) : IsDocument b.toJson := by
  refine .of_object (by simp only [List.map_cons, List.map_nil]; decide) ?_
  simp [IsDocument.of_map BoundaryMember.isDocument]

theorem SearchCounters.isDocument (counters : SearchCounters) : IsDocument counters.toJson := by
  refine .of_object (by simp only [List.map_cons, List.map_nil]; decide) ?_
  simp

theorem ContainmentPlan.isDocument (plan : ContainmentPlan) : IsDocument plan.toJson := by
  have hwitness : IsDocument (Json.object [("present", Json.flag plan.infeasibility.present),
      ("path", Json.ids plan.infeasibility.path)]) := by
    refine .of_object (by simp only [List.map_cons, List.map_nil]; decide) ?_
    simp
  have hboundary : IsDocument (Json.object [("generation", Json.number plan.boundary.generation),
      ("digest", Json.digest plan.boundary.digest),
      ("member_count", Json.count plan.boundary.members.length),
      ("total_weight", Json.number plan.boundary.totalWeight),
      ("protected_member_count", Json.count plan.boundary.protectedMemberCount),
      ("members", Json.array (plan.boundary.members.map BoundaryMember.toJson))]) := by
    refine .of_object (by simp only [List.map_cons, List.map_nil]; decide) ?_
    simp [IsDocument.of_map BoundaryMember.isDocument]
  refine .of_object (by simp only [List.map_cons, List.map_nil]; decide) ?_
  simp [hwitness, hboundary, AuthorityVector.isDocument, SearchCounters.isDocument,
    IsDocument.of_map ExplanationItem.isDocument_plan]

theorem TransitionDecision.isDocument (decision : TransitionDecision) :
    IsDocument decision.toJson := by
  refine .of_object (by
    simp only [bootMembers, List.map_append, List.map_cons, List.map_nil]
    decide) ?_
  simp [bootMembers, IsDocument.of_map ExplanationItem.isDocument]

namespace Net

theorem describe_isDocument (served : Served) : IsDocument (describeJson served) := by
  refine .of_object (by simp only [List.map_cons, List.map_nil]; decide) ?_
  simp [StartupReport.isDocument, AuthorityVector.isDocument, RuntimeStats.isDocument]

/-- The boundary in force is shown with what is known of its effect. -/
theorem currentBoundary_isDocument {s : RuntimeState} {json : Bytes}
    (h : currentBoundary s = .ok json) : IsDocument json := by
  unfold currentBoundary at h
  split at h
  · exact absurd h (by simp [fail])
  · obtain rfl := Except.ok.inj h
    refine .of_object (by simp only [List.map_cons, List.map_nil]; decide) ?_
    simp [ContainmentBoundary.isDocument]

/-- The value of a computation put through a function is a value of the function. -/
theorem exec_map_ok {σ ε α β : Type} {f : α → β} {m : ExceptT ε (StateM σ) α} {s : σ} {b : β}
    (h : (Stateful.exec (f <$> m) s).1 = .ok b) : ∃ a, f a = b := by
  rw [Stateful.exec_map] at h
  cases hm : (Stateful.exec m s).1 with
  | error e => exact absurd h (by simp [hm, Except.map])
  | ok a =>
    rw [hm] at h
    exact ⟨a, Except.ok.inj h⟩

/-- What a call replies is shown as a document. -/
theorem reply_isDocument {env : Env} {call : Call} {s : RuntimeState} {reply : Reply}
    (h : (Stateful.exec (Fcfn.perform env call) s).1 = .ok reply) (s' : RuntimeState) :
    IsDocument (replyJson s' reply) := by
  cases call with
  | applyTopology spec =>
    obtain ⟨generation, rfl⟩ := exec_map_ok h
    refine .of_object (by simp only [List.map_cons, List.map_nil]; decide) ?_
    simp
  | applyPolicy policy =>
    obtain ⟨generation, rfl⟩ := exec_map_ok h
    refine .of_object (by simp only [List.map_cons, List.map_nil]; decide) ?_
    simp
  | recordDetection observation =>
    obtain ⟨record, rfl⟩ := exec_map_ok h
    exact record.isDocument
  | authorize =>
    obtain ⟨record, rfl⟩ := exec_map_ok h
    exact record.isDocument
  | plan authorization =>
    obtain ⟨plan, rfl⟩ := exec_map_ok h
    exact plan.isDocument
  | transition request =>
    obtain ⟨decision, rfl⟩ := exec_map_ok h
    exact decision.isDocument
  | submitApply authorization plan plan_digest =>
    obtain ⟨attempt, rfl⟩ := exec_map_ok h
    exact attempt.isDocument
  | acknowledge ack =>
    obtain ⟨attempt, rfl⟩ := exec_map_ok h
    exact attempt.isDocument
  | verifyEffect report =>
    obtain ⟨attempt, rfl⟩ := exec_map_ok h
    exact attempt.isDocument
  | checkpoint =>
    obtain ⟨_, rfl⟩ := exec_map_ok h
    refine .of_object (by simp only [List.map_cons, List.map_nil]; decide) ?_
    simp

/-- What a response carries, if it carries anything, is a document. -/
def ResponsePayload.Sound (response : ResponsePayload) : Prop :=
  response.json = [] ∨ IsDocument response.json

/-- What is answered to a call is sound. -/
theorem answer_sound (operation : Operation) (decoded : Result Call) (served : Served) :
    (answer operation decoded served).1.Sound := by
  unfold answer
  split
  · exact .inl rfl
  · rename_i call
    split
    · exact .inl rfl
    · rename_i reply served' hperform
      have hreply : (Stateful.exec (Fcfn.perform (served.surroundings served.calls) call)
          served.state).1 = .ok reply := congrArg Prod.fst hperform
      exact .inr (reply_isDocument hreply _)

/-- Every response of the coordinator is sound. -/
theorem dispatch_sound (operation : Operation) (arguments : Bytes) (served : Served) :
    (dispatch operation arguments served).1.Sound := by
  cases operation with
  | describe => exact .inr (describe_isDocument served)
  | attempts => exact .inr (.of_map ApplyAttempt.isDocument _)
  | evidence => exact .inr (.of_map EvidenceEntry.isDocument _)
  | shutdown =>
    refine .inr (.of_object (by simp only [List.map_cons, List.map_nil]; decide) ?_)
    simp
  | currentBoundary =>
    unfold dispatch
    dsimp only
    split
    · exact .inl rfl
    · rename_i json hjson
      exact .inr (currentBoundary_isDocument hjson)
  | planByGeneration =>
    unfold dispatch
    dsimp only
    split
    · exact .inl rfl
    · rename_i plan _
      exact .inr plan.isDocument
  | _ => exact answer_sound _ _ served

end Net

end Fcfn
