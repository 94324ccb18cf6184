import Fcfn.Ctl.Knowledge

/-!
# What a scenario's client is granted

The fields that the client reads from an answer are those of the record that the runtime replied
with, so all that a client of a coordinator knows was granted to it: its authorization is the
identity of a record that was issued, its plan is a plan that was computed, and its attempt is the
sequence of an attempt that was submitted (`scenario_knows_grants`). -/

namespace Fcfn

open Words JsonText

/-! ## Fields of documents -/

/-- A document in which nothing can be looked up. -/
def Atomic (document : Bytes) : Prop :=
  ∃ v, Renders document v ∧ ∀ key sought, v.first key sought = none

namespace Atomic

theorem of_number (n : UInt64) : Atomic (Json.number n) :=
  ⟨_, Renders.of_number n, fun _ _ => rfl⟩

theorem of_string (s : String) : Atomic (Json.string s) := ⟨_, Renders.of_text _, fun _ _ => rfl⟩

end Atomic

/-- The first member of a name behind members of other names. -/
theorem first_object {front rest : List (String × Bytes)} {key : String} {document : Bytes}
    {w : Value} (sought : Value → Bool)
    (hnames : (((front ++ (key, document) :: rest).map Prod.fst).all
      fun name => isName (bytesOf name)) = true)
    (hfront : ∀ m ∈ front, bytesOf m.1 ≠ bytesOf key ∧ Atomic m.2)
    (hrest : ∀ m ∈ rest, IsDocument m.2) (hw : Renders document w) (hsought : sought w = true) :
    ∃ v, Renders (Json.object (front ++ (key, document) :: rest)) v ∧
      v.first (bytesOf key) sought = some w := by
  have hvalues : ∃ values : List (Bytes × Value),
      List.Forall₂ (fun m w => isName w.1 = true ∧ bytesOf m.1 = w.1 ∧ Renders m.2 w.2)
        (front ++ (key, document) :: rest) values ∧
      firstMember (bytesOf key) sought values = some w := by
    induction front with
    | nil =>
      rw [List.nil_append, List.map_cons, List.all_cons, Bool.and_eq_true] at hnames
      obtain ⟨values, hvalues⟩ := IsDocument.exists_values hnames.2 hrest
      refine ⟨(bytesOf key, w) :: values, .cons ⟨hnames.1, rfl, hw⟩ hvalues, ?_⟩
      exact if_pos ⟨rfl, hsought⟩
    | cons m front ih =>
      rw [List.cons_append, List.map_cons, List.all_cons, Bool.and_eq_true] at hnames
      obtain ⟨hother, v, hv, hnone⟩ := hfront m List.mem_cons_self
      obtain ⟨values, hvalues, hfirst⟩ :=
        ih hnames.2 fun other hmem => hfront other (List.mem_cons_of_mem _ hmem)
      refine ⟨(bytesOf m.1, v) :: values, .cons ⟨hnames.1, rfl, hv⟩ hvalues, ?_⟩
      rw [firstMember, if_neg fun h => hother h.1, hnone, Option.none_or, hfirst]
  obtain ⟨values, hvalues, hfirst⟩ := hvalues
  exact ⟨.object values, .of_object hvalues, hfirst⟩

/-- A number field behind fields of other names. -/
theorem jsonFieldU64_object (front : List (String × Bytes)) {rest : List (String × Bytes)}
    {key : String} {n : UInt64}
    (hnames : (((front ++ (key, Json.number n) :: rest).map Prod.fst).all
      fun name => isName (bytesOf name)) = true)
    (hfront : ∀ m ∈ front, bytesOf m.1 ≠ bytesOf key ∧ Atomic m.2)
    (hrest : ∀ m ∈ rest, IsDocument m.2) :
    jsonFieldU64 (Json.object (front ++ (key, Json.number n) :: rest)) (bytesOf key) = some n := by
  have hkey : isName (bytesOf key) = true := by
    rw [List.all_eq_true] at hnames
    exact hnames key (by simp)
  obtain ⟨v, hv, hfirst⟩ := first_object (fun _ => true) hnames hfront hrest
    (Renders.of_number n) rfl
  have hread : Value.read (.number n.toNat) = some n := by
    unfold Value.read
    dsimp only
    rw [if_pos (Int.natCast_nonneg _), Int.toNat_natCast, UInt64.ofNat_toNat]
  rw [jsonFieldU64_renders hkey hv, hfirst, Option.bind_some, hread]

/-! ## The fields of records -/

theorem AuthorizationRecord.field_id (record : AuthorizationRecord) :
    jsonFieldU64 record.toJson (bytesOf "authorization_id") = some record.id := by
  refine jsonFieldU64_object [] (by
    simp only [bootMembers, List.append_eq, List.map_append, List.map_cons, List.map_nil,
      List.nil_append]
    decide) (by simp) ?_
  simp [bootMembers]

theorem ApplyAttempt.field_sequence (attempt : ApplyAttempt) :
    jsonFieldU64 attempt.toJson (bytesOf "attempt_sequence") = some attempt.id.sequence := by
  refine jsonFieldU64_object [("plan_generation", Json.number attempt.id.plan)] (by
    simp only [bootMembers, List.append_eq, List.map_append, List.map_cons, List.map_nil]
    decide) ?_ ?_
  · simp only [List.mem_singleton, forall_eq]
    exact ⟨by decide, .of_number _⟩
  · simp [bootMembers, IsDocument.of_map ExplanationItem.isDocument]

namespace Scenario

open Net

/-! ## Answers -/

/-- An answer to a call carries nothing, or what the runtime replied. -/
theorem answer_cases (operation : Operation) (decoded : Result Call) (served : Served) :
    ((answer operation decoded served).1.json = [] ∧
        (answer operation decoded served).1.result = []) ∨
      ∃ call reply, decoded = .ok call ∧
        (Stateful.exec (Fcfn.perform (served.surroundings served.calls) call) served.state).1 =
          .ok reply ∧
        (answer operation decoded served).1.json =
          replyJson (served.perform call).2.state reply ∧
        (answer operation decoded served).1.result = replyResult reply := by
  unfold answer
  split
  · exact .inl ⟨rfl, rfl⟩
  · rename_i call
    split
    · exact .inl ⟨rfl, rfl⟩
    · rename_i reply served' hperform
      exact .inr ⟨call, reply, rfl, congrArg Prod.fst hperform, by rw [hperform]; rfl, rfl⟩

/-- A status holds no identity. -/
theorem statusJson_field (code : StatusCode) (message : Bytes) {key : String}
    (hkey : isName (bytesOf key) = true) (hcode : bytesOf "code" ≠ bytesOf key)
    (hmessage : bytesOf "message" ≠ bytesOf key) :
    jsonFieldU64 (statusJson code message) (bytesOf key) = none := by
  have hnames : isName (bytesOf "code") = true ∧ isName (bytesOf "message") = true := by decide
  have hrenders : Renders (statusJson code message) (.object
      [(bytesOf "code", .text (bytesOf code.token)),
        (bytesOf "message", .text (message.take kMaxStatusMessageLength))]) :=
    .of_object (.cons ⟨hnames.1, rfl, .of_text _⟩ (.cons ⟨hnames.2, rfl, .of_text _⟩ .nil))
  rw [jsonFieldU64_renders hkey hrenders, Value.first, firstMember, firstMember, firstMember,
    if_neg fun h => hcode h.1, if_neg fun h => hmessage h.1]
  rfl

/-- A document that is carried is shown. -/
theorem responseJson_document {response : ResponsePayload} (h : IsDocument response.json) :
    responseJson response = response.json :=
  if_pos h.ne_nil

theorem responseJson_nil {response : ResponsePayload} (h : response.json = []) :
    responseJson response = statusJson response.code response.message :=
  if_neg (not_not.mpr h)

/-! ## What is granted -/

/-- The authorization was issued by the answer to one of the calls. -/
def Issued (calls : List Exchanged) (authorization : AuthorizationId) : Prop :=
  ∃ arguments served record,
    ⟨.authorize, arguments, .ok (dispatch .authorize arguments served).1⟩ ∈ calls ∧
      (served.perform .authorize).1 = .ok (.authorization record) ∧ record.id = authorization

/-- The plan was computed for one of the calls. -/
def Computed (calls : List Exchanged) (plan : ContainmentPlan) : Prop :=
  ∃ arguments served authorization,
    ⟨.plan, arguments, .ok (dispatch .plan arguments served).1⟩ ∈ calls ∧
      (served.perform (.plan authorization)).1 = .ok (.plan plan)

/-- The attempt was submitted for one of the calls. -/
def Submitted (calls : List Exchanged) (sequence : AttemptSequence) : Prop :=
  ∃ arguments served authorization plan plan_digest attempt,
    ⟨.submitApply, arguments, .ok (dispatch .submitApply arguments served).1⟩ ∈ calls ∧
      (served.perform (.submitApply authorization plan plan_digest)).1 = .ok (.submitted attempt) ∧
        attempt.id.sequence = sequence

/-- All that is known was granted by the answers to some calls. -/
structure Granted (calls : List Exchanged) (known : Known) : Prop where
  authorization : known.authorization ≠ 0 → Issued calls known.authorization
  plan : ∀ plan, known.plan = some plan → Computed calls plan
  attempt : ∀ sequence, known.attempt = some sequence → Submitted calls sequence

theorem Granted.mono {calls more : List Exchanged} {known : Known} (h : Granted calls known)
    (hmore : calls ⊆ more) : Granted more known := by
  refine ⟨fun hne => ?_, fun plan hplan => ?_, fun sequence hsequence => ?_⟩
  · obtain ⟨arguments, served, record, hmem, hissued⟩ := h.authorization hne
    exact ⟨arguments, served, record, hmore hmem, hissued⟩
  · obtain ⟨arguments, served, authorization, hmem, hcomputed⟩ := h.plan plan hplan
    exact ⟨arguments, served, authorization, hmore hmem, hcomputed⟩
  · obtain ⟨arguments, served, authorization, plan, plan_digest, attempt, hmem, hsubmitted⟩ :=
      h.attempt sequence hsequence
    exact ⟨arguments, served, authorization, plan, plan_digest, attempt, hmore hmem, hsubmitted⟩

/-- What an answer teaches was granted by it. -/
theorem granted_learn {calls : List Exchanged} {known : Known} (h : Granted calls known)
    {operation : Operation} {arguments : Bytes} {served : Served}
    (hbounded : (dispatch operation arguments served).1.result.length ≤ kMaxFramePayloadBytes)
    (hmem : ⟨operation, arguments, .ok (dispatch operation arguments served).1⟩ ∈ calls) :
    Granted calls (learnAnswer known operation (dispatch operation arguments served).1) := by
  cases operation with
  | authorize =>
    unfold learnAnswer
    dsimp only
    split
    · exact h
    · rename_i authorization hfield
      refine ⟨fun _ => ?_, h.plan, h.attempt⟩
      rcases answer_cases .authorize (.ok .authorize) served with
        ⟨hjson, -⟩ | ⟨call, reply, hcall, hperform, hjson, -⟩
      · have hnone : (dispatch .authorize arguments served).1.json = [] := hjson
        rw [responseJson_nil hnone, statusJson_field _ _ (by decide) (by decide) (by decide)]
          at hfield
        exact absurd hfield (by simp)
      · obtain rfl := Except.ok.inj hcall
        obtain ⟨record, rfl⟩ := exec_map_ok hperform
        have hshown : (dispatch .authorize arguments served).1.json = record.toJson := hjson
        have hdocument : IsDocument (dispatch .authorize arguments served).1.json :=
          hshown ▸ record.isDocument
        rw [responseJson_document hdocument, hshown, record.field_id] at hfield
        exact ⟨arguments, served, record, hmem, hperform, Option.some.inj hfield⟩
  | plan =>
    unfold learnAnswer
    dsimp only
    split
    · exact h
    · rename_i plan hdecode
      refine ⟨h.authorization, fun plan' hplan => ?_, h.attempt⟩
      obtain rfl := Option.some.inj hplan
      rcases answer_cases .plan (do return .plan (← decodeAuthorizationReference arguments)) served
        with ⟨-, hresult⟩ | ⟨call, reply, hcall, hperform, -, hresult⟩
      · have hempty : ContainmentPlan.decode [] = .ok plan := hresult ▸ hdecode
        have hfails : (ContainmentPlan.decode []).isOk = false := by decide
        rw [hempty] at hfails
        exact Bool.noConfusion hfails
      · obtain ⟨authorization, -, hcall⟩ := bind_eq_ok.mp hcall
        obtain rfl := Except.ok.inj hcall
        obtain ⟨computed, rfl⟩ := exec_map_ok hperform
        have hencoded : (dispatch .plan arguments served).1.result = computed.encode := hresult
        rw [hencoded] at hdecode hbounded
        have hlength : computed.encode.length < 2 ^ 32 :=
          lt_of_le_of_lt hbounded (by decide)
        obtain rfl := ContainmentPlan.decode_recovers hlength hdecode
        exact ⟨arguments, served, authorization, hmem, hperform⟩
  | submitApply =>
    unfold learnAnswer
    dsimp only
    split
    · exact h
    · rename_i sequence hfield
      refine ⟨h.authorization, h.plan, fun sequence' hsequence => ?_⟩
      obtain rfl := Option.some.inj hsequence
      rcases answer_cases .submitApply (do
          let request ← decodeSubmitApplyArguments arguments
          return .submitApply request.authorization request.plan request.plan_digest) served with
        ⟨hjson, -⟩ | ⟨call, reply, hcall, hperform, hjson, -⟩
      · have hnone : (dispatch .submitApply arguments served).1.json = [] := hjson
        rw [responseJson_nil hnone, statusJson_field _ _ (by decide) (by decide) (by decide)]
          at hfield
        exact absurd hfield (by simp)
      · obtain ⟨request, -, hcall⟩ := bind_eq_ok.mp hcall
        obtain rfl := Except.ok.inj hcall
        obtain ⟨attempt, rfl⟩ := exec_map_ok hperform
        have hshown : (dispatch .submitApply arguments served).1.json = attempt.toJson := hjson
        have hdocument : IsDocument (dispatch .submitApply arguments served).1.json :=
          hshown ▸ attempt.isDocument
        rw [responseJson_document hdocument, hshown, attempt.field_sequence] at hfield
        exact ⟨arguments, served, _, _, _, attempt, hmem, hperform, Option.some.inj hfield⟩
  | _ => exact h

/-- All that is known after calls of a coordinator was granted by them. -/
theorem granted_learn_all {α : Type} {peer : Peer α} (hpeer : peer.Faithful)
    {calls : List Exchanged} (hanswered : ∀ call ∈ calls, peer.Answered call) :
    Granted calls (calls.foldl learn {}) := by
  induction calls using List.reverseRecOn with
  | nil =>
    refine ⟨fun hne => absurd rfl hne, fun plan hplan => ?_, fun sequence hsequence => ?_⟩
    · exact absurd hplan (by simp)
    · exact absurd hsequence (by simp)
  | append_singleton calls call ih =>
    have hbefore := (ih fun call hcall => hanswered call (List.mem_append_left _ hcall)).mono
      (List.subset_append_left calls [call])
    obtain ⟨a, ha⟩ := hanswered call (List.mem_append_right _ List.mem_cons_self)
    obtain ⟨operation, arguments, outcome⟩ := call
    rw [List.foldl_append, List.foldl_cons, List.foldl_nil]
    -- the count of the reports is the client's own
    have hcounted : Granted (calls ++ [⟨operation, arguments, outcome⟩])
        (if countsReport operation then
          { calls.foldl learn {} with reports := (calls.foldl learn {}).reports + 1 }
        else calls.foldl learn {}) := by
      split
      · exact ⟨hbefore.authorization, hbefore.plan, hbefore.attempt⟩
      · exact hbefore
    unfold learn
    dsimp only
    cases outcome with
    | error status => exact hcounted
    | ok response =>
      dsimp only
      split
      · obtain ⟨served, hserved⟩ := hpeer.answers a operation arguments response ha
        have hbounded := hpeer.bounded a operation arguments response ha
        subst hserved
        exact granted_learn hcounted hbounded (List.mem_append_right _ List.mem_cons_self)
      · exact hcounted

/-- Whatever a scenario does against a coordinator, which others may use as well, all that its
client knows was granted by the answers to its calls: the authorization was issued, the plan was
computed and the attempt was submitted, each as the runtime replied. -/
theorem scenario_knows_grants {α : Type} (peer : Peer α) (hpeer : peer.Faithful) (start : α)
    (handshake : HelloAckPayload) (files : Bytes → Option Bytes) (text : Bytes) :
    Granted (runClient peer start handshake files text).trace
      (runClient peer start handshake files text).session.known := by
  have hsound : (Session.start handshake).Sound := fun h => absurd h Bool.false_ne_true
  obtain ⟨-, -, calls, htrace, hanswered, -, hknown, -⟩ := @followed_lines α peer
    ⟨Session.start handshake, start, [], []⟩ hsound files (ConfigText.getLines text)
  have htrace' : (runClient peer start handshake files text).trace = calls := htrace
  have hknown' : (runClient peer start handshake files text).session.known =
      calls.foldl learn {} := hknown
  rw [htrace', hknown']
  exact granted_learn_all hpeer hanswered

/-- A scenario that is given an authorization. -/
theorem scenario_knows_grants_authorize :
    Granted (runClient servedPeer Net.Sample.served {} (fun _ => none)
        (bytesOf "authorize\nplan\n")).trace
      (runClient servedPeer Net.Sample.served {} (fun _ => none)
        (bytesOf "authorize\nplan\n")).session.known :=
  scenario_knows_grants servedPeer servedPeer_faithful Net.Sample.served {} (fun _ => none)
    (bytesOf "authorize\nplan\n")

end Scenario

end Fcfn
