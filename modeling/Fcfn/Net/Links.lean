import Fcfn.Net.Passes

/-!
# Connections of the exchange

The invariant of a connection (`Link.Inv`). The bytes under way to a session are the front of the
frames that its client has written and the session has not taken, so the session dispatches the
client's calls in their order, each once. An answer carries the number of its call, so a client
takes no other answer for it, whatever reads have failed before. -/

namespace Fcfn.Net

open Words Codec Streams

/-! ## The invariant of a connection -/

/-- The frame of the `n`-th call, from zero on. -/
def callFrame (handshake : HelloAckPayload) (n : ℕ) (request : RequestPayload) : Frame :=
  { type := .request, session := handshake.session, sequence := UInt64.ofNat (n + 1),
    epoch := handshake.epoch, payload := encodeRequest request }

namespace Link

/-- The frames of a client's calls. -/
def asked (link : Link) : List Frame := link.calls.mapIdx (callFrame link.client.handshake)

/-- How many of its client's calls a session has taken. -/
def taken (answers : History) (link : Link) : ℕ :=
  match link.serving with
  | none => answers.length
  | some serving => if serving.found.isNone then answers.length + 1 else answers.length

/-- How many of its client's calls a session has answered. -/
def answered (answers : History) (link : Link) : ℕ :=
  match link.serving with
  | none => answers.length
  | some serving => if serving.found.isSome then answers.length - 1 else answers.length

/-- Where a session is among its client's calls: between two of them, or at one that has not taken
effect yet, or at the last that has. -/
def Stands (answers : History) (last : Sequence) (link : Link) : Prop :=
  match link.serving with
  | none => last = UInt64.ofNat answers.length
  | some serving => serving.frame.sequence = UInt64.ofNat (link.taken answers) ∧
    match serving.found with
    | none => link.calls[answers.length]? = some serving.request
    | some found => (answers.getLast?).map (fun entry => (entry.request, entry.response)) =
        some (serving.request, found)

/-- What a session has taken of what its client has written. -/
def Serves (answers : History) (link : Link) : Prop :=
  match link.phase with
  | .handshake => answers = [] ∧ link.sent = [] ∧ link.serving = none ∧
      Carries (!link.broken) link.stream link.to_server
        (Client.helloFrame link.config :: link.asked)
  | .requests last => link.Stands answers last ∧
      Carries (!link.broken) link.stream link.to_server (link.asked.drop (link.taken answers))
  | .ended _ => True

/-- Before its session is admitted, a client has all of its answers to come. -/
theorem serves_handshake {link : Link} (h : link.phase = .handshake) (answers : History) :
    link.Serves answers ↔ answers = [] ∧ link.sent = [] ∧ link.serving = none ∧
      Carries (!link.broken) link.stream link.to_server
        (Client.helloFrame link.config :: link.asked) := by
  unfold Serves
  rw [h]

/-- A session takes its client's calls one after the other. -/
theorem serves_requests {link : Link} {last : Sequence} (h : link.phase = .requests last)
    (answers : History) :
    link.Serves answers ↔ link.Stands answers last ∧
      Carries (!link.broken) link.stream link.to_server (link.asked.drop (link.taken answers)) := by
  unfold Serves
  rw [h]

/-- A session that is over takes nothing more. -/
theorem serves_ended {link : Link} {why : SessionEnd} (h : link.phase = .ended why)
    (answers : History) : link.Serves answers := by
  unfold Serves
  rw [h]
  trivial

/-- A session between two calls. -/
theorem stands_none {link : Link} (h : link.serving = none) (answers : History) (last : Sequence) :
    link.Stands answers last ↔ last = UInt64.ofNat answers.length := by
  unfold Stands
  rw [h]

theorem taken_none {link : Link} (h : link.serving = none) (answers : History) :
    link.taken answers = answers.length := by
  unfold taken
  rw [h]

/-- A session at a call that has not taken effect yet. -/
theorem stands_asked {link : Link} {serving : Serving} (hserving : link.serving = some serving)
    (hfound : serving.found = none) (answers : History) (last : Sequence) :
    link.Stands answers last ↔ serving.frame.sequence = UInt64.ofNat (answers.length + 1) ∧
      link.calls[answers.length]? = some serving.request := by
  unfold Stands taken
  simp only [hserving, hfound, Option.isNone_none, if_true]

theorem taken_asked {link : Link} {serving : Serving} (hserving : link.serving = some serving)
    (hfound : serving.found = none) (answers : History) :
    link.taken answers = answers.length + 1 := by
  unfold taken
  simp only [hserving, hfound, Option.isNone_none, if_true]

/-- A session at the last call that has taken effect. -/
theorem stands_found {link : Link} {serving : Serving} {found : ResponsePayload}
    (hserving : link.serving = some serving) (hfound : serving.found = some found) (answers : History)
    (last : Sequence) :
    link.Stands answers last ↔ serving.frame.sequence = UInt64.ofNat answers.length ∧
      (answers.getLast?).map (fun entry => (entry.request, entry.response)) =
        some (serving.request, found) := by
  unfold Stands taken
  simp only [hserving, hfound, Option.isNone_some, Bool.false_eq_true, if_false]

theorem taken_found {link : Link} {serving : Serving} {found : ResponsePayload}
    (hserving : link.serving = some serving) (hfound : serving.found = some found)
    (answers : History) : link.taken answers = answers.length := by
  unfold taken
  simp only [hserving, hfound, Option.isNone_some, Bool.false_eq_true, if_false]

theorem answered_none {link : Link} (h : link.serving = none) (answers : History) :
    link.answered answers = answers.length := by
  unfold answered
  rw [h]

theorem answered_asked {link : Link} {serving : Serving} (hserving : link.serving = some serving)
    (hfound : serving.found = none) (answers : History) : link.answered answers = answers.length := by
  unfold answered
  simp only [hserving, hfound, Option.isSome_none, Bool.false_eq_true, if_false]

theorem answered_found {link : Link} {serving : Serving} {found : ResponsePayload}
    (hserving : link.serving = some serving) (hfound : serving.found = some found)
    (answers : History) : link.answered answers = answers.length - 1 := by
  unfold answered
  simp only [hserving, hfound, Option.isSome_some, if_true]

/-- What a session may have written: an admission, a refusal, an answer to the call that it names, or
an error about a call before the last. Of the answers to a call, `gives` tells which are right. -/
def Wrote (epoch : CoordinatorEpoch) (answers : History) (gives : ℕ → ResponsePayload → Prop)
    (link : Link) (frame : Frame) : Prop :=
  frame.type = .helloAck ∧ (∀ ack, decodeHelloAck frame.payload = .ok ack → ack.accepted = true →
      link.phase ≠ .handshake ∧ ack.session = link.session ∧ ack.epoch = epoch) ∨
    frame.type = .response ∧ ((∃ n response, n < answers.length ∧ gives n response ∧
        frame.sequence = UInt64.ofNat (n + 1) ∧ frame.payload = encodeResponse response) ∨
      frame.sequence.toNat < link.calls.length)

/-- How many frames a client may have taken: the answer to its hello, and one for each of its calls
that has returned. -/
def heard (link : Link) : ℕ :=
  match link.client_phase with
  | .connecting => 0
  | _ => link.results.length + 1

/-- What a client has taken of what its session has written. -/
def Receives (link : Link) : Prop :=
  Takes (!link.broken) link.client.stream link.to_client link.sent link.heard

/-- What a client knows of its session, and how many of its calls have returned. -/
def Knows (epoch : CoordinatorEpoch) (link : Link) : Prop :=
  match link.client_phase with
  | .connecting => link.calls = [] ∧ link.results = [] ∧ link.client.sequence = 0
  | .refused _ => link.calls = [] ∧ link.results = []
  | .ready => link.phase ≠ .handshake ∧ link.client.handshake.session = link.session ∧
      link.client.handshake.epoch = epoch ∧ link.client.sequence = UInt64.ofNat link.calls.length ∧
      link.results.length = link.calls.length
  | .waiting => link.phase ≠ .handshake ∧ link.client.handshake.session = link.session ∧
      link.client.handshake.epoch = epoch ∧ link.client.sequence = UInt64.ofNat link.calls.length ∧
      link.results.length + 1 = link.calls.length

/-- The invariant of a connection, whose session has given some answers. -/
structure Inv (epoch : CoordinatorEpoch) (answers : History) (gives : ℕ → ResponsePayload → Prop)
    (link : Link) : Prop where
  in_order : answers.map Shared.Entry.request <+: link.calls
  serves : link.Serves answers
  wrote : ∀ frame ∈ link.sent, link.Wrote epoch answers gives frame
  receives : link.Receives
  knows : link.Knows epoch
  returned : ∀ (n : ℕ) (response : ResponsePayload), link.results[n]? = some (.ok response) →
    gives n response
  written : ∀ last, link.phase = .requests last → link.sent.length = link.answered answers + 1

/-- What a connection has carried fits the fields of its frames. -/
structure Within (link : Link) : Prop where
  hello : (Client.helloFrame link.config).payload.length < 2 ^ 32
  requests : ∀ request ∈ link.calls, (encodeRequest request).length < 2 ^ 32
  calls : link.calls.length < 2 ^ 64
  sent : Fit link.sent

/-- What a connection has carried only grows. -/
structure Extends (link link' : Link) : Prop where
  config : link'.config = link.config
  calls : link.calls <+: link'.calls
  results : link.results <+: link'.results
  sent : link.sent <+: link'.sent

theorem Extends.refl (link : Link) : link.Extends link :=
  ⟨rfl, List.prefix_rfl, List.prefix_rfl, List.prefix_rfl⟩

theorem Extends.trans {link link' link'' : Link} (h : link.Extends link') (h' : link'.Extends link'') :
    link.Extends link'' :=
  ⟨h'.config.trans h.config, h.calls.trans h'.calls, h.results.trans h'.results, h.sent.trans h'.sent⟩

/-- What fits later has fitted before. -/
theorem Within.of_extends {link link' : Link} (h : link'.Within) (hextends : link.Extends link') :
    link.Within :=
  ⟨hextends.config ▸ h.hello, fun request hrequest => h.requests request (hextends.calls.mem hrequest),
    lt_of_le_of_lt hextends.calls.length_le h.calls,
    fun frame hframe => h.sent frame (hextends.sent.mem hframe)⟩

/-! ### The steps of a client -/

section Client

variable {epoch : CoordinatorEpoch} {answers : History} {gives : ℕ → ResponsePayload → Prop}
  {link : Link}

/-- What a call changes: it asks for the request, and it is written, in part or not at all. -/
theorem call_cases (link : Link) (request : RequestPayload) (written : Option ℕ) :
    ∃ (broken : Bool) (to_server : Bytes) (phase : ClientPhase) (results : List (Result ResponsePayload)),
      link.call request written = { link with
        client := { link.client with sequence := link.client.sequence + 1 }
        calls := link.calls ++ [request], broken, to_server, client_phase := phase, results } ∧
      (∀ frames, Carries (!link.broken) link.stream link.to_server frames →
        Carries (!broken) link.stream to_server (frames ++ [link.client.requestFrame request])) ∧
      (link.broken = true → broken = true) ∧
      (phase = link.client_phase ∧ (∃ status, results = link.results ++ [.error status]) ∨
        phase = .waiting ∧ results = link.results) := by
  unfold call
  dsimp only
  split
  · rename_i hbroken
    refine ⟨true, link.to_server, link.client_phase,
      link.results ++ [fail .interrupted "socket write failed or was released"], by rw [hbroken],
      fun frames h => ?_, fun _ => rfl, Or.inl ⟨rfl, _, rfl⟩⟩
    rw [hbroken] at h
    exact h.lost _
  rename_i hwhole
  rw [Bool.not_eq_true] at hwhole
  split
  · refine ⟨false, _, .waiting, link.results, by rw [hwhole], fun frames h => ?_,
      fun habsurd => absurd habsurd (by simp [hwhole]), Or.inr ⟨rfl, rfl⟩⟩
    rw [hwhole] at h
    have hwrite := h.write [link.client.requestFrame request]
    rwa [List.flatMap_singleton] at hwrite
  · rename_i n
    refine ⟨true, _, link.client_phase, _, rfl, fun frames h => ?_, fun _ => rfl, Or.inl ⟨rfl, _, rfl⟩⟩
    rw [hwhole] at h
    exact h.write_part _ n

/-- A session stands at one of its client's calls. -/
theorem Stands.taken_le {last : Sequence} (h : link.Stands answers last)
    (hle : answers.length ≤ link.calls.length) : link.taken answers ≤ link.calls.length := by
  cases hserving : link.serving with
  | none => rwa [taken_none hserving]
  | some serving =>
    cases hfound : serving.found with
    | some found => rwa [taken_found hserving hfound]
    | none =>
      rw [taken_asked hserving hfound]
      exact (List.getElem?_eq_some_iff.mp ((stands_asked hserving hfound answers last).mp h).2).1

/-- Where a session stands does not change when its client calls. -/
theorem Stands.calls {link' : Link} {last : Sequence} (h : link.Stands answers last)
    (hcalls : link.calls <+: link'.calls) (hsame : link'.serving = link.serving) :
    link'.Stands answers last := by
  obtain ⟨more, hmore⟩ := hcalls
  cases hserving : link.serving with
  | none =>
    rw [stands_none hserving] at h
    rwa [stands_none (hsame.trans hserving)]
  | some serving =>
    cases hfound : serving.found with
    | some found =>
      rw [stands_found hserving hfound] at h
      rwa [stands_found (hsame.trans hserving) hfound]
    | none =>
      obtain ⟨hnumber, hrequest⟩ := (stands_asked hserving hfound answers last).mp h
      refine (stands_asked (hsame.trans hserving) hfound answers last).mpr ⟨hnumber, ?_⟩
      rw [← hmore, List.getElem?_append_left (List.getElem?_eq_some_iff.mp hrequest).1]
      exact hrequest

/-- A session dispatches no more than its client has asked for. -/
theorem Inv.length_le (h : link.Inv epoch answers gives) : answers.length ≤ link.calls.length := by
  have hle := h.in_order.length_le
  rwa [List.length_map] at hle

/-- What a client waits for goes on when results are added that are no answers. -/
theorem returned_append {results : List (Result ResponsePayload)}
    (h : ∀ (n : ℕ) (response : ResponsePayload), results[n]? = some (.ok response) →
      gives n response) {result : Result ResponsePayload}
    (hresult : ∀ response, result = .ok response → gives results.length response) (n : ℕ)
    (response : ResponsePayload) (hn : (results ++ [result])[n]? = some (.ok response)) :
    gives n response := by
  rcases Nat.lt_trichotomy n results.length with hlt | rfl | hgt
  · rw [List.getElem?_append_left hlt] at hn
    exact h n response hn
  · rw [List.getElem?_concat_length] at hn
    exact hresult response (Option.some.inj hn)
  · rw [List.getElem?_eq_none (by rw [List.length_append, List.length_singleton]; omega)] at hn
    exact absurd hn (by simp)

/-- A client calls. -/
theorem Inv.call (h : link.Inv epoch answers gives) (hready : link.client_phase = .ready)
    (request : RequestPayload) (written : Option ℕ) :
    (link.call request written).Inv epoch answers gives := by
  have hknows := h.knows
  unfold Knows at hknows
  rw [hready] at hknows
  obtain ⟨hphase, hsession, hepoch, hsequence, hlength⟩ := hknows
  have hle := h.length_le
  obtain ⟨broken, to_server, phase, results, hcall, hwritten, hstays, hreturns⟩ :=
    call_cases link request written
  rw [hcall]
  have hnext : link.client.sequence + 1 = UInt64.ofNat (link.calls ++ [request]).length := by
    rw [hsequence, List.length_append, List.length_singleton, UInt64.ofNat_add]
    rfl
  constructor
  · exact h.in_order.trans (List.prefix_append link.calls [request])
  · -- the frame of the call goes after those that the session has not taken
    have hserves := h.serves
    unfold Serves at hserves ⊢
    dsimp only at hserves ⊢
    cases hcase : link.phase with
    | handshake => exact absurd hcase hphase
    | ended why => trivial
    | requests last =>
      rw [hcase] at hserves
      have hframe : link.client.requestFrame request =
          callFrame link.client.handshake link.calls.length request := by
        unfold Client.requestFrame callFrame
        rw [hsequence, UInt64.ofNat_add]
        rfl
      refine ⟨hserves.1.calls ⟨[request], rfl⟩ rfl, ?_⟩
      unfold asked
      dsimp only
      rw [List.mapIdx_concat, List.drop_append_of_le_length
        (by rw [List.length_mapIdx]; exact hserves.1.taken_le hle), ← hframe]
      exact hwritten _ hserves.2
  · intro frame hmem
    obtain hack | ⟨htype, hanswer | hearlier⟩ := h.wrote frame hmem
    · exact Or.inl hack
    · exact Or.inr ⟨htype, Or.inl hanswer⟩
    · refine Or.inr ⟨htype, Or.inr ?_⟩
      rw [List.length_append]
      exact Nat.lt_add_right _ hearlier
  · have hreceives := h.receives
    have hheard : link.heard = link.results.length + 1 := by
      unfold heard
      rw [hready]
    have hmore : Takes (!link.broken) link.client.stream link.to_client link.sent
        (results.length + 1) := by
      unfold Receives at hreceives
      rw [hheard] at hreceives
      refine hreceives.mono ?_
      rcases hreturns with ⟨-, status, rfl⟩ | ⟨-, rfl⟩
      · rw [List.length_append]
        omega
      · exact le_rfl
    unfold Receives
    refine Takes.mono ?_ (show results.length + 1 ≤ _ from ?_)
    · cases broken with
      | true => exact hmore.weaken
      | false =>
        have hwhole : link.broken = false := by
          by_contra hbroken
          exact absurd (hstays (by simpa using hbroken)) (by simp)
        rwa [hwhole] at hmore
    · unfold heard
      rcases hreturns with ⟨rfl, -⟩ | ⟨rfl, -⟩
      · rw [hready]
      · exact le_rfl
  · unfold Knows
    rcases hreturns with ⟨rfl, status, rfl⟩ | ⟨rfl, rfl⟩
    · rw [hready]
      refine ⟨hphase, hsession, hepoch, hnext, ?_⟩
      rw [List.length_append, List.length_append, hlength]
      rfl
    · refine ⟨hphase, hsession, hepoch, hnext, ?_⟩
      rw [List.length_append, hlength]
      rfl
  · rcases hreturns with ⟨-, status, rfl⟩ | ⟨-, rfl⟩
    · exact returned_append h.returned fun response habsurd => absurd habsurd (by simp)
    · exact h.returned
  · exact h.written

/-- A connection breaks. -/
theorem Inv.cut (h : link.Inv epoch answers gives) (to_server to_client : ℕ) :
    (link.cut to_server to_client).Inv epoch answers gives := by
  refine ⟨h.in_order, ?_, h.wrote, ?_, h.knows, h.returned, h.written⟩
  · have hserves := h.serves
    unfold Serves at hserves ⊢
    unfold Link.cut
    dsimp only at hserves ⊢
    cases hcase : link.phase with
    | ended why => trivial
    | handshake =>
      rw [hcase] at hserves
      obtain ⟨hnone, hsent, hserving, hcarries⟩ := hserves
      have hlose := hcarries.lose to_server []
      rw [List.append_nil] at hlose
      exact ⟨hnone, hsent, hserving, hlose⟩
    | requests last =>
      rw [hcase] at hserves
      have hlose := hserves.2.lose to_server []
      rw [List.append_nil] at hlose
      exact ⟨hserves.1, hlose⟩
  · refine h.receives.imp_right ?_
    rintro ⟨rest, hrest, hcarries, hcount⟩
    have hlose := hcarries.lose to_client []
    rw [List.append_nil] at hlose
    exact ⟨rest, hrest, hlose, hcount⟩

/-- What a client that waits makes of a frame of its session: the answer to its call, or an error. -/
theorem Inv.accepts (h : link.Inv epoch answers gives) (hcalls : link.calls.length < 2 ^ 64)
    (hwaiting : link.client_phase = .waiting) {frame : Frame} (hframe : frame ∈ link.sent)
    (hfit : frame.payload.length < 2 ^ 32) {response : ResponsePayload}
    (haccept : acceptResponse link.client.handshake.session link.client.sequence frame = .ok response) :
    gives link.results.length response := by
  have hknows := h.knows
  unfold Knows at hknows
  rw [hwaiting] at hknows
  obtain ⟨-, -, -, hsequence, hlength⟩ := hknows
  simp only [acceptResponse, require_bind_eq_ok, beq_iff_eq] at haccept
  obtain ⟨htype, -, hnumber, hdecode⟩ := haccept
  rw [hsequence] at hnumber
  obtain ⟨hack, -⟩ | ⟨-, ⟨n, given, hn, hgives, hnumbered, hpayload⟩ | hearlier⟩ :=
    h.wrote frame hframe
  · rw [hack] at htype
    exact absurd htype (by simp)
  · -- the answer carries the number of the call that it answers
    have hle := h.length_le
    have hsame : n + 1 = link.calls.length := by
      have hwords := congrArg UInt64.toNat (hnumbered.symm.trans hnumber)
      rwa [UInt64.toNat_ofNat_of_lt' (by show n + 1 < 2 ^ 64; omega),
        UInt64.toNat_ofNat_of_lt' hcalls] at hwords
    obtain rfl : n = link.results.length := by omega
    rw [hpayload] at hdecode hfit
    rwa [decodeResponse_recovers hfit hdecode]
  · rw [hnumber, UInt64.toNat_ofNat_of_lt' hcalls] at hearlier
    exact absurd hearlier (lt_irrefl _)

/-- What a pass of a client changes: what it has taken of the bytes, and, when a loop ends, what it
knows of its session or what its call has returned. -/
theorem receive_cases (h : link.Receives) (hfit : Fit link.sent) {chunk : Bytes}
    (hchunk : chunk <+: link.to_client) :
    ∃ (client : Client) (to_client : Bytes) (phase : ClientPhase) (broken : Bool)
      (results : List (Result ResponsePayload)),
      link.receive chunk =
        { link with client, to_client, client_phase := phase, broken, results } ∧
      ({ link with client, to_client, client_phase := phase, broken, results } : Link).Receives ∧
      (broken = true ∨ broken = link.broken) ∧ client.sequence = link.client.sequence ∧
      ((phase = link.client_phase ∧ client.handshake = link.client.handshake ∧
          results = link.results) ∨
        (link.client_phase = .connecting ∧ results = link.results ∧
          ((∃ status, phase = .refused status) ∨ phase = .ready ∧ ∃ frame ∈ link.sent,
            Client.acceptHandshake frame = .ok client.handshake)) ∨
        (link.client_phase = .waiting ∧ phase = .ready ∧
          client.handshake = link.client.handshake ∧ ∃ result, results = link.results ++ [result] ∧
            ∀ response, result = .ok response → ∃ frame ∈ link.sent, acceptResponse
              link.client.handshake.session link.client.sequence frame = .ok response)) := by
  unfold Receives heard at h
  unfold receive
  dsimp only
  cases hphase : link.client_phase with
  | ready =>
    rw [hphase] at h
    refine ⟨link.client, link.to_client, .ready, link.broken, link.results, ?_, h, Or.inr rfl, rfl,
      Or.inl ⟨rfl, rfl, rfl⟩⟩
    show link = _
    rw [← hphase]
  | refused status =>
    rw [hphase] at h
    refine ⟨link.client, link.to_client, .refused status, link.broken, link.results, ?_, h,
      Or.inr rfl, rfl, Or.inl ⟨rfl, rfl, rfl⟩⟩
    show link = _
    rw [← hphase]
  | connecting =>
    rw [hphase] at h
    simp only [Client.connectPass]
    rcases hnext : link.client.stream.next with ⟨outcome, stream⟩
    cases outcome with
    | needMore =>
      have hread := h.readMore (by rw [hnext]) hchunk
        "coordinator closed the connection during handshake" "handshake exceeded the frame bound"
      have hkept := link.client.readMore_keeps chunk
        "coordinator closed the connection during handshake" "handshake exceeded the frame bound"
      rcases hmore : link.client.readMore chunk "coordinator closed the connection during handshake"
        "handshake exceeded the frame bound" with ⟨status, client⟩
      rw [hmore] at hread hkept
      cases status with
      | none =>
        exact ⟨client, _, .connecting, link.broken, link.results, by rw [← hphase]; rfl, hread,
          Or.inr rfl, hkept.2, Or.inl ⟨rfl, hkept.1, rfl⟩⟩
      | some status =>
        exact ⟨client, _, .refused status, true, link.results, rfl,
          hread.weaken.mono (Nat.zero_le _), Or.inl rfl, hkept.2,
          Or.inr (Or.inl ⟨trivial, rfl, Or.inl ⟨status, rfl⟩⟩)⟩
    | refused refusal =>
      exact ⟨_, _, .refused _, true, link.results, rfl, Or.inl (FrameStream.next_poisoned hnext),
        Or.inl rfl, rfl, Or.inr (Or.inl ⟨trivial, rfl, Or.inl ⟨_, rfl⟩⟩)⟩
    | complete frame =>
      obtain ⟨hmem, htaken⟩ := h.next hfit hnext
      dsimp only
      cases hack : Client.acceptHandshake frame with
      | error status =>
        exact ⟨_, _, .refused status, true, link.results, rfl,
          htaken.weaken.mono (Nat.le_add_left _ _), Or.inl rfl, rfl,
          Or.inr (Or.inl ⟨trivial, rfl, Or.inl ⟨status, rfl⟩⟩)⟩
      | ok ack =>
        exact ⟨_, _, .ready, link.broken, link.results, rfl, htaken.mono (Nat.le_add_left _ _),
          Or.inr rfl, rfl, Or.inr (Or.inl ⟨trivial, rfl, Or.inr ⟨rfl, frame, hmem, hack⟩⟩)⟩
  | waiting =>
    rw [hphase] at h
    have hheard : ∀ result : Result ResponsePayload,
        link.results.length + 1 + 1 ≤ (link.results ++ [result]).length + 1 := by
      intro result
      rw [List.length_append, List.length_singleton]
    simp only [Client.callPass]
    rcases hnext : link.client.stream.next with ⟨outcome, stream⟩
    cases outcome with
    | needMore =>
      have hread := h.readMore (by rw [hnext]) hchunk "coordinator closed the connection"
        "response exceeded the frame bound"
      have hkept := link.client.readMore_keeps chunk "coordinator closed the connection"
        "response exceeded the frame bound"
      rcases hmore : link.client.readMore chunk "coordinator closed the connection"
        "response exceeded the frame bound" with ⟨status, client⟩
      rw [hmore] at hread hkept
      cases status with
      | none =>
        exact ⟨client, _, .waiting, link.broken, link.results, by rw [← hphase]; rfl, hread,
          Or.inr rfl, hkept.2, Or.inl ⟨rfl, hkept.1, rfl⟩⟩
      | some status =>
        exact ⟨client, _, .ready, link.broken, _, rfl,
          hread.mono ((Nat.le_succ _).trans (hheard (.error status))), Or.inr rfl, hkept.2,
          Or.inr (Or.inr ⟨trivial, rfl, hkept.1, .error status, rfl,
            fun response habsurd => absurd habsurd (by simp)⟩)⟩
    | refused refusal =>
      exact ⟨_, _, .ready, link.broken, _, rfl, Or.inl (FrameStream.next_poisoned hnext),
        Or.inr rfl, rfl, Or.inr (Or.inr ⟨trivial, rfl, rfl, _, rfl,
          fun response habsurd => absurd habsurd (by simp [fail])⟩)⟩
    | complete frame =>
      obtain ⟨hmem, htaken⟩ := h.next hfit hnext
      exact ⟨_, _, .ready, link.broken, _, rfl, htaken.mono (hheard _), Or.inr rfl, rfl, Or.inr (Or.inr
        ⟨trivial, rfl, rfl, _, rfl, fun response haccept => ⟨frame, hmem, haccept⟩⟩)⟩

/-- A client makes a pass. -/
theorem Inv.receive (h : link.Inv epoch answers gives) (hcalls : link.calls.length < 2 ^ 64)
    (hfit : Fit link.sent) {chunk : Bytes} (hchunk : chunk <+: link.to_client) :
    (link.receive chunk).Inv epoch answers gives := by
  obtain ⟨client, to_client, phase, broken, results, hreceive, htakes, hbroken, hsequence, hcases⟩ :=
    receive_cases h.receives hfit hchunk
  rw [hreceive]
  have hknows := h.knows
  unfold Knows at hknows
  -- the handshake is set once, before the first call
  have hasked : client.handshake = link.client.handshake ∨ link.calls = [] := by
    rcases hcases with ⟨-, hsame, -⟩ | ⟨hconnecting, -⟩ | ⟨-, -, hsame, -⟩
    · exact Or.inl hsame
    · rw [hconnecting] at hknows
      exact Or.inr hknows.1
    · exact Or.inl hsame
  have hframes : ({ link with client, to_client, client_phase := phase, broken, results } : Link).asked
      = link.asked := by
    unfold asked
    rcases hasked with hsame | hnone
    · rw [hsame]
    · dsimp only
      rw [hnone]
      rfl
  constructor
  · exact h.in_order
  · have hcarries : ∀ frames, Carries (!link.broken) link.stream link.to_server frames →
        Carries (!broken) link.stream link.to_server frames := by
      intro frames hcarries
      rcases hbroken with rfl | rfl
      · exact hcarries.weaken
      · exact hcarries
    have hserves := h.serves
    unfold Serves at hserves ⊢
    rw [hframes]
    dsimp only at hserves ⊢
    cases hcase : link.phase with
    | ended why => trivial
    | handshake =>
      rw [hcase] at hserves
      exact ⟨hserves.1, hserves.2.1, hserves.2.2.1, hcarries _ hserves.2.2.2⟩
    | requests last =>
      rw [hcase] at hserves
      exact ⟨hserves.1, hcarries _ hserves.2⟩
  · exact h.wrote
  · exact htakes
  · unfold Knows
    dsimp only
    rcases hcases with ⟨rfl, hsame, rfl⟩ | ⟨hconnecting, rfl, hends⟩ | ⟨hwaiting, rfl, hsame, result, rfl, -⟩
    · rw [hsame, hsequence]
      exact hknows
    · rw [hconnecting] at hknows
      rcases hends with ⟨status, rfl⟩ | ⟨rfl, frame, hframe, haccept⟩
      · exact ⟨hknows.1, hknows.2.1⟩
      · obtain ⟨htype, hdecode, haccepted⟩ := Client.acceptHandshake_eq_ok.mp haccept
        obtain ⟨-, hadmits⟩ | ⟨hother, -⟩ := h.wrote frame hframe
        · obtain ⟨hphase, hsession, hepoch⟩ := hadmits _ hdecode haccepted
          refine ⟨hphase, hsession, hepoch, ?_, ?_⟩
          · rw [hsequence, hknows.2.2, hknows.1]
            rfl
          · rw [hknows.1, hknows.2.1]
            rfl
        · rw [htype] at hother
          exact absurd hother (by simp)
    · rw [hwaiting] at hknows
      obtain ⟨hphase, hsession, hepoch, hnumber, hlength⟩ := hknows
      rw [hsame, hsequence, List.length_append]
      exact ⟨hphase, hsession, hepoch, hnumber, hlength⟩
  · rcases hcases with ⟨-, -, rfl⟩ | ⟨-, rfl, -⟩ | ⟨hwaiting, -, -, result, rfl, hresult⟩
    · exact h.returned
    · exact h.returned
    · refine returned_append h.returned fun response hok => ?_
      obtain ⟨frame, hframe, haccept⟩ := hresult response hok
      exact h.accepts hcalls hwaiting hframe (hfit frame hframe) haccept
  · exact h.written

/-- A call only adds to what a client has asked for. -/
theorem call_extends (link : Link) (request : RequestPayload) (written : Option ℕ) :
    link.Extends (link.call request written) := by
  obtain ⟨broken, to_server, phase, results, hcall, -, -, hreturns⟩ := link.call_cases request written
  rw [hcall]
  refine ⟨rfl, List.prefix_append _ _, ?_, List.prefix_rfl⟩
  rcases hreturns with ⟨-, status, rfl⟩ | ⟨-, rfl⟩
  · exact List.prefix_append _ _
  · exact List.prefix_rfl

/-- A pass of a client asks for nothing. -/
theorem receive_extends (link : Link) (chunk : Bytes) : link.Extends (link.receive chunk) := by
  unfold receive
  dsimp only
  cases link.client_phase with
  | ready => exact .refl link
  | refused status => exact .refl link
  | connecting =>
    rcases link.client.connectPass chunk with ⟨_ | _ | _, client⟩
    all_goals exact ⟨rfl, List.prefix_rfl, List.prefix_rfl, List.prefix_rfl⟩
  | waiting =>
    rcases link.client.callPass chunk with ⟨_ | result, client⟩
    · exact ⟨rfl, List.prefix_rfl, List.prefix_rfl, List.prefix_rfl⟩
    · exact ⟨rfl, List.prefix_rfl, List.prefix_append _ _, List.prefix_rfl⟩

/-- What a read returns is the front of what is under way. -/
theorem readOf_prefix (under_way : Bytes) (read : Option ℕ) :
    readOf under_way read <+: under_way := by
  cases read with
  | none => exact List.nil_prefix
  | some n => exact List.take_prefix _ _

/-- A connection starts with the hello under way. -/
theorem Inv.connect (epoch : CoordinatorEpoch) (client : ClientConfig) :
    Inv epoch [] gives { config := client, to_server := encodeFrame (Client.helloFrame client) } := by
  refine ⟨List.nil_prefix, (serves_handshake rfl _).mpr ⟨rfl, rfl, rfl, ?_⟩, ?_, ?_, ⟨rfl, rfl, rfl⟩,
    ?_, ?_⟩
  · have hstart := Carries.start true [Client.helloFrame client]
    rw [List.flatMap_singleton] at hstart
    exact hstart
  · intro frame hframe
    exact absurd hframe List.not_mem_nil
  · exact Or.inr ⟨[], List.nil_suffix, Carries.start true [], le_rfl⟩
  · intro n response hresult
    exact absurd hresult (by simp)
  · intro last hphase
    exact absurd hphase (by simp)

end Client

/-! ### The steps of a session -/

section Session

variable {epoch : CoordinatorEpoch} {answers : History} {gives : ℕ → ResponsePayload → Prop}
  {link : Link}

/-- The frames of a client's calls fit their headers. -/
theorem Within.fit (h : link.Within) : Fit link.asked := by
  intro frame hframe
  obtain ⟨n, hn, rfl⟩ := List.mem_mapIdx.mp hframe
  exact h.requests _ (List.getElem_mem hn)

/-- The first call that a session has not taken. -/
theorem asked_drop {n : ℕ} {frame : Frame} {rest : List Frame}
    (h : link.asked.drop n = frame :: rest) :
    ∃ request, link.calls[n]? = some request ∧
      frame = callFrame link.client.handshake n request ∧ rest = link.asked.drop (n + 1) := by
  have hfirst : link.asked[n]? = some frame := by
    rw [← List.head?_drop, h]
    rfl
  rw [asked, List.getElem?_mapIdx, Option.map_eq_some_iff] at hfirst
  obtain ⟨request, hrequest, rfl⟩ := hfirst
  refine ⟨request, hrequest, rfl, ?_⟩
  rw [← List.tail_drop, h]
  rfl

/-- What a session has written stays as it is when the session goes on. -/
theorem Wrote.mono {link' : Link} {frame : Frame} {gives' : ℕ → ResponsePayload → Prop}
    (h : link.Wrote epoch answers gives frame)
    (hgives : ∀ n response, gives n response → gives' n response)
    (hphase : link.phase ≠ .handshake → link'.phase ≠ .handshake ∧ link'.session = link.session)
    (hcalls : link'.calls = link.calls) (added : History) :
    link'.Wrote epoch (answers ++ added) gives' frame := by
  obtain ⟨htype, hack⟩ | ⟨htype, ⟨n, response, hn, hanswer, hframe⟩ | hearlier⟩ := h
  · refine Or.inl ⟨htype, fun ack hdecode haccepted => ?_⟩
    obtain ⟨hadmitted, hsession, hepoch⟩ := hack ack hdecode haccepted
    obtain ⟨hstays, hsame⟩ := hphase hadmitted
    exact ⟨hstays, hsame ▸ hsession, hepoch⟩
  · refine Or.inr ⟨htype, Or.inl ⟨n, response, ?_, hgives n response hanswer, hframe⟩⟩
    rw [List.length_append]
    exact Nat.lt_add_right _ hn
  · exact Or.inr ⟨htype, Or.inr (hcalls ▸ hearlier)⟩

/-- What is left to show of a session that goes on: where it stands, and what it writes. -/
theorem Inv.of_session (link' : Link) {gives' : ℕ → ResponsePayload → Prop} (added : History)
    (more : List Frame) (h : link.Inv epoch answers gives)
    (hgives : ∀ n response, gives n response → gives' n response)
    (hclient : link'.client = link.client ∧ link'.client_phase = link.client_phase ∧
      link'.calls = link.calls ∧ link'.results = link.results ∧ link'.broken = link.broken)
    (hsent : link'.sent = link.sent ++ more ∧ link'.to_client =
      if link.broken then link.to_client else link.to_client ++ more.flatMap encodeFrame)
    (hphase : link.phase ≠ .handshake → link'.phase ≠ .handshake ∧ link'.session = link.session)
    (horder : (answers ++ added).map Shared.Entry.request <+: link.calls)
    (hserves : link'.Serves (answers ++ added))
    (hwrote : ∀ frame ∈ more, link'.Wrote epoch (answers ++ added) gives' frame)
    (hwritten : ∀ last, link'.phase = .requests last →
      link'.sent.length = link'.answered (answers ++ added) + 1) :
    link'.Inv epoch (answers ++ added) gives' := by
  obtain ⟨hclient, hclient_phase, hcalls, hresults, hbroken⟩ := hclient
  obtain ⟨hsent, hto_client⟩ := hsent
  refine ⟨hcalls ▸ horder, hserves, fun frame hframe => ?_, ?_, ?_, fun n response hresult => ?_,
    hwritten⟩
  · rw [hsent] at hframe
    rcases List.mem_append.mp hframe with hold | hnew
    · exact (h.wrote frame hold).mono hgives hphase hcalls added
    · exact hwrote frame hnew
  · have hwrite := Takes.write h.receives more
    have hheard : link'.heard = link.heard := by
      unfold heard
      rw [hclient_phase, hresults]
    unfold Receives
    rw [hclient, hbroken, hsent, hto_client, hheard]
    cases hcase : link.broken with
    | true =>
      rw [hcase] at hwrite
      exact hwrite
    | false =>
      rw [hcase] at hwrite
      exact hwrite
  · have hknows := h.knows
    unfold Knows at hknows ⊢
    rw [hclient_phase, hclient, hcalls, hresults]
    cases hcase : link.client_phase with
    | connecting => rwa [hcase] at hknows
    | refused status => rwa [hcase] at hknows
    | ready =>
      rw [hcase] at hknows
      obtain ⟨hne, hsession, hrest⟩ := hknows
      exact ⟨(hphase hne).1, hsession.trans (hphase hne).2.symm, hrest⟩
    | waiting =>
      rw [hcase] at hknows
      obtain ⟨hne, hsession, hrest⟩ := hknows
      exact ⟨(hphase hne).1, hsession.trans (hphase hne).2.symm, hrest⟩
  · rw [hresults] at hresult
    exact hgives n response (h.returned n response hresult)

/-- More answers may be right. -/
theorem Inv.mono {gives' : ℕ → ResponsePayload → Prop} (h : link.Inv epoch answers gives)
    (hgives : ∀ n response, gives n response → gives' n response) :
    link.Inv epoch answers gives' := by
  have hkept := Inv.of_session link [] [] h hgives ⟨rfl, rfl, rfl, rfl, rfl⟩
  simp only [List.append_nil, List.flatMap_nil, ite_self] at hkept
  exact hkept ⟨trivial, trivial⟩ (fun hne => ⟨hne, trivial⟩) h.in_order h.serves (by simp)
    h.written

/-- What a client that has called knows of its session. -/
theorem Inv.knows_session (h : link.Inv epoch answers gives) (hcalls : link.calls ≠ []) :
    link.client.handshake.session = link.session ∧ link.client.handshake.epoch = epoch := by
  have hknows := h.knows
  unfold Knows at hknows
  split at hknows
  · exact absurd hknows.1 hcalls
  · exact absurd hknows.1 hcalls
  · exact ⟨hknows.2.1, hknows.2.2.1⟩
  · exact ⟨hknows.2.1, hknows.2.2.1⟩

/-- The frame that a session finds is that of the first call it has not taken, and the call passes
its checks. -/
theorem Inv.finds (h : link.Inv epoch answers gives) (hwithin : link.Within)
    (hserving : link.serving = none) {last : Sequence} (hphase : link.phase = .requests last)
    {connection : Connection}
    (hsession : connection.session = link.session) {frame : Frame} {stream : FrameStream}
    (hnext : link.stream.next = (.complete frame, stream)) :
    ∃ request, link.calls[answers.length]? = some request ∧
      checkRequest connection last epoch frame = .ok request ∧
      frame.sequence = UInt64.ofNat (answers.length + 1) ∧
      Carries (!link.broken) stream link.to_server (link.asked.drop (answers.length + 1)) := by
  obtain ⟨hstands, hcarries⟩ := (serves_requests hphase answers).mp h.serves
  rw [taken_none hserving] at hcarries
  obtain rfl := (stands_none hserving answers last).mp hstands
  obtain ⟨rest, hdrop, hbound, hrest⟩ :=
    hcarries.next (fun other hother => hwithin.fit other (List.mem_of_mem_drop hother)) hnext
  obtain ⟨request, hrequest, rfl, rfl⟩ := asked_drop hdrop
  refine ⟨request, hrequest, ?_, rfl, hrest⟩
  have hlt := (List.getElem?_eq_some_iff.mp hrequest).1
  have hcalls := hwithin.calls
  obtain ⟨hknown, hepoch⟩ := h.knows_session (List.ne_nil_of_length_pos (by omega))
  have harguments : request.arguments.length ≤ kMaxFramePayloadBytes := by
    refine le_trans ?_ hbound
    show _ ≤ (encodeRequest request).length
    rw [encodeRequest, Write.blob, List.length_append, List.length_append]
    omega
  refine checkRequest_eq_ok.mpr ⟨rfl, hknown.trans hsession.symm, ?_, hepoch,
    decodeRequest_encode harguments⟩
  rw [UInt64.lt_iff_toNat_lt]
  show _ < (UInt64.ofNat (answers.length + 1)).toNat
  rw [UInt64.toNat_ofNat_of_lt' (by show _ < 2 ^ 64; omega),
    UInt64.toNat_ofNat_of_lt' (by show _ < 2 ^ 64; omega)]
  omega

/-- The frame with which a session refuses its client. -/
theorem Inv.wrote_parting {ρ : Type} {connection : Connection} {s : SessionState ρ} {link' : Link}
    {frame : Frame} (h : link.Inv epoch answers gives) (hwithin : link.Within)
    (hserving : link.serving = none) (hphase : s.phase = link.phase) (hstream : s.stream = link.stream)
    (hsession : link.phase ≠ .handshake → connection.session = link.session)
    (hcalls : link'.calls = link.calls) (hparting : IsParting connection epoch s frame) :
    link'.Wrote epoch answers gives frame := by
  cases hparting with
  | hello reason before short =>
    refine Or.inl ⟨rfl, fun ack hdecode haccepted => ?_⟩
    rw [show (refusalFrame reason).payload = encodeHelloAck { reason := bytesOf reason } from rfl,
      decodeHelloAck_encode short (by simp)] at hdecode
    obtain rfl := Except.ok.inj hdecode
    exact absurd haccepted (by simp)
  | bytes last refusal stream before next =>
    rw [hphase] at before
    rw [hstream] at next
    obtain ⟨hstands, hcarries⟩ := (serves_requests before answers).mp h.serves
    rw [taken_none hserving] at hcarries
    obtain rfl := (stands_none hserving answers last).mp hstands
    -- the bytes that are refused are those of a call that was not answered
    have hleft := hcarries.refused
      (fun other hother => hwithin.fit other (List.mem_of_mem_drop hother)) next
    have hlt : answers.length < link.calls.length := by
      by_contra hge
      refine hleft (List.drop_eq_nil_of_le ?_)
      rw [asked, List.length_mapIdx]
      omega
    refine Or.inr ⟨rfl, Or.inr ?_⟩
    show (UInt64.ofNat answers.length).toNat < link'.calls.length
    have hbound := hwithin.calls
    rw [UInt64.toNat_ofNat_of_lt' (by show _ < 2 ^ 64; omega), hcalls]
    exact hlt
  | request last frame stream status before next check =>
    rw [hphase] at before
    rw [hstream] at next
    obtain ⟨request, -, hok, -⟩ :=
      h.finds hwithin hserving before (hsession (by rw [before]; simp)) next
    rw [check] at hok
    exact absurd hok (by simp)

/-- The request that is answered next is among those that the client has asked for. -/
theorem Inv.in_order_concat (h : link.Inv epoch answers gives) {request : RequestPayload}
    (hrequest : link.calls[answers.length]? = some request) :
    answers.map Shared.Entry.request ++ [request] <+: link.calls := by
  obtain ⟨rest, hrest⟩ := h.in_order
  rw [← hrest, List.getElem?_append_right (by rw [List.length_map]), List.length_map,
    Nat.sub_self] at hrequest
  rw [← hrest]
  refine List.prefix_append_right_inj _ |>.mpr ?_
  cases rest with
  | nil => exact absurd hrequest (by simp)
  | cons first others =>
    obtain rfl := Option.some.inj hrequest
    exact ⟨others, rfl⟩

/-! ### A request that is served -/

/-- A session that serves a request is past its handshake. -/
theorem Inv.serving_phase (h : link.Inv epoch answers gives) {serving : Serving}
    (hserving : link.serving = some serving) (hopen : link.isStopped = false) :
    ∃ last, link.phase = .requests last := by
  cases hphase : link.phase with
  | handshake =>
    obtain ⟨-, -, hnone, -⟩ := (serves_handshake hphase answers).mp h.serves
    rw [hserving] at hnone
    exact absurd hnone (by simp)
  | requests last => exact ⟨last, rfl⟩
  | ended why =>
    unfold isStopped at hopen
    rw [hphase] at hopen
    exact absurd hopen (by simp)

/-- A request is taken. -/
theorem Inv.take (h : link.Inv epoch answers gives) (hwithin : link.Within)
    (hserving : link.serving = none) {last : Sequence} (hphase : link.phase = .requests last)
    {connection : Connection} (hsession : connection.session = link.session) {frame : Frame}
    {request : RequestPayload} {stream : FrameStream}
    (hnext : link.stream.next = (.complete frame, stream))
    (hcheck : checkRequest connection last epoch frame = .ok request) (ordinal : UInt64)
    {phase : Phase} (hstays : phase = link.phase ∨ phase = .ended .exited) :
    ({ link with stream, phase, serving := some { frame, request, ordinal } } : Link).Inv epoch answers
      gives := by
  obtain ⟨found, hfound, hok, hnumber, hcarries⟩ := h.finds hwithin hserving hphase hsession hnext
  obtain rfl : found = request := Except.ok.inj (hok.symm.trans hcheck)
  have hkept := Inv.of_session
    { link with stream, phase, serving := some { frame, request := found, ordinal } } [] [] h
    (fun _ _ => id) ⟨rfl, rfl, rfl, rfl, rfl⟩
  simp only [List.append_nil, List.flatMap_nil, ite_self] at hkept
  refine hkept ⟨trivial, trivial⟩ (fun hne => ⟨?_, trivial⟩) h.in_order ?_ (by simp) fun _ _ => ?_
  · rcases hstays with rfl | rfl
    · exact hne
    · simp
  · rcases hstays with rfl | rfl
    · have hphase' : ({ link with
          stream
          phase := link.phase
          serving := some { frame, request := found, ordinal } } : Link).phase = .requests last := hphase
      refine (serves_requests hphase' answers).mpr
        ⟨(stands_asked rfl rfl answers last).mpr ⟨hnumber, hfound⟩, ?_⟩
      rw [taken_asked rfl rfl]
      exact hcarries
    · exact serves_ended rfl answers
  · rw [answered_asked rfl rfl, ← answered_none hserving answers]
    exact h.written last hphase

/-- A request takes effect. -/
theorem Inv.effect (h : link.Inv epoch answers gives) {serving : Serving}
    (hserving : link.serving = some serving) (hfound : serving.found = none)
    (hopen : link.isStopped = false) (i : ℕ) (response : ResponsePayload)
    {gives' : ℕ → ResponsePayload → Prop}
    (hgives : ∀ n given, gives n given → gives' n given) :
    ({ link with serving := some { serving with found := some response } } : Link).Inv epoch
      (answers ++ [⟨i, serving.request, response⟩]) gives' := by
  obtain ⟨last, hphase⟩ := h.serving_phase hserving hopen
  obtain ⟨hstands, hcarries⟩ := (serves_requests hphase answers).mp h.serves
  rw [stands_asked hserving hfound] at hstands
  rw [taken_asked hserving hfound] at hcarries
  have hkept := Inv.of_session
    { link with serving := some { serving with found := some response } }
    [⟨i, serving.request, response⟩] [] h hgives ⟨rfl, rfl, rfl, rfl, rfl⟩
  simp only [List.append_nil, List.flatMap_nil, ite_self] at hkept
  refine hkept ⟨trivial, trivial⟩ (fun hne => ⟨hne, trivial⟩) ?_ ?_ (by simp) fun _ _ => ?_
  · rw [List.map_append]
    exact h.in_order_concat hstands.2
  · have hlength : (answers ++ [(⟨i, serving.request, response⟩ : Shared.Entry ℕ _ _)]).length =
        answers.length + 1 := by rw [List.length_append, List.length_singleton]
    have hphase' : ({ link with serving := some { serving with found := some response } } : Link).phase
        = .requests last := hphase
    refine (serves_requests hphase' _).mpr ⟨(stands_found rfl rfl _ last).mpr ⟨?_, ?_⟩, ?_⟩
    · rw [hlength]
      exact hstands.1
    · rw [List.getLast?_concat]
      rfl
    · rw [taken_found rfl rfl, hlength]
      exact hcarries
  · rw [answered_found rfl rfl, List.length_append, List.length_singleton, Nat.add_sub_cancel,
      ← answered_asked hserving hfound answers]
    exact h.written last hphase

/-- A session answers. -/
theorem Inv.answer (h : link.Inv epoch answers gives) {serving : Serving}
    (hserving : link.serving = some serving) {found : ResponsePayload}
    (hfound : serving.found = some found) (hopen : link.isStopped = false) (config : ServerConfig)
    {response : ResponsePayload} (hgives : gives (answers.length - 1) response) :
    (Exchange.answeredLink config link serving response).Inv epoch answers gives := by
  obtain ⟨last, hphase⟩ := h.serving_phase hserving hopen
  obtain ⟨hstands, hcarries⟩ := (serves_requests hphase answers).mp h.serves
  obtain ⟨hnumber, hlast⟩ := (stands_found hserving hfound answers last).mp hstands
  rw [taken_found hserving hfound] at hcarries
  have hpos : 0 < answers.length := by
    by_contra hnone
    rw [List.length_eq_zero_iff.mp (Nat.eq_zero_of_not_pos hnone)] at hlast
    exact absurd hlast (by simp)
  unfold Exchange.answeredLink
  dsimp only
  split
  · -- the process stops before the answer is written
    have hkept := Inv.of_session { link with phase := .ended .exited } [] [] h
      (fun _ _ => id) ⟨rfl, rfl, rfl, rfl, rfl⟩
    simp only [List.append_nil, List.flatMap_nil, ite_self] at hkept
    exact hkept ⟨trivial, trivial⟩ (fun _ => ⟨by simp, trivial⟩) h.in_order (serves_ended rfl answers)
      (by simp) fun _ hends => absurd hends (by simp)
  · generalize hnext : (if crashesAt config .afterAck serving.request.operation.isMutating serving.ordinal
      then Phase.ended .exited else if serving.request.operation = .shutdown then .ended .shutdown
      else .requests serving.frame.sequence) = phase
    have hkept := Inv.of_session { link with
        to_client := if link.broken then link.to_client
          else link.to_client ++ encodeFrame (responseFrame serving.frame response)
        sent := link.sent ++ [responseFrame serving.frame response], serving := none, phase }
      [] [responseFrame serving.frame response] h (fun _ _ => id)
      ⟨rfl, rfl, rfl, rfl, rfl⟩
    simp only [List.append_nil, List.flatMap_singleton] at hkept
    refine hkept ⟨trivial, trivial⟩ (fun _ => ⟨?_, trivial⟩) h.in_order ?_ ?_ fun _ _ => ?_
    · rw [← hnext]
      split
      · simp
      · split
        · simp
        · simp
    · by_cases hends : ∃ why, phase = .ended why
      · obtain ⟨why, rfl⟩ := hends
        exact serves_ended rfl answers
      · have hgoes : phase = .requests serving.frame.sequence := by
          rw [← hnext] at hends ⊢
          split at hends
          · exact absurd ⟨_, rfl⟩ hends
          · split at hends
            · exact absurd ⟨_, rfl⟩ hends
            · simp_all
        subst hgoes
        exact (serves_requests rfl answers).mpr ⟨hnumber, hcarries⟩
    · -- the answer carries the number of the call
      intro frame hframe
      obtain rfl := List.mem_singleton.mp hframe
      refine Or.inr ⟨rfl, Or.inl ⟨answers.length - 1, response, by omega, hgives, ?_, rfl⟩⟩
      show serving.frame.sequence = _
      rw [hnumber, Nat.sub_add_cancel hpos]
    · have hwritten := h.written last hphase
      rw [answered_found hserving hfound, Nat.sub_add_cancel hpos] at hwritten
      rw [answered_none rfl, List.length_append, List.length_singleton, hwritten]

end Session

end Link

/-! ### A pass that serves no request -/

section Pass

variable {ρ : Type} {service : SharedService ρ} {config : ServerConfig} {answers : History}
  {gives : ℕ → ResponsePayload → Prop}

/-- A session makes a pass that serves no request. -/
theorem Link.Inv.quiet_pass {x : Exchange ρ} {link : Link} {chunk : Bytes} (config : ServerConfig)
    (h : link.Inv (service.epoch x.runtime) answers gives) (hwithin : link.Within)
    (hserving : link.serving = none) (hnone : x.nextRequest service link = none)
    (hchunk : chunk <+: link.to_server) :
    (x.servedLink link chunk (x.sessionPass service config link chunk)).Inv
      (service.epoch x.runtime) answers gives := by
  have houtcome := @pass_outcome ρ service.toService config (x.connection link) (fun _ => rfl)
    (x.sessionState link chunk)
  unfold Exchange.sessionPass
  generalize pass service.toService config (x.connection link) (x.sessionState link chunk) = after at *
  obtain ⟨rest, hrest⟩ := hchunk
  have hbytes : link.to_server.drop chunk.length = rest := by rw [← hrest, List.drop_left]
  have hsession : link.phase ≠ .handshake → (x.connection link).session = link.session :=
    fun hphase => if_neg hphase
  have hasked : (x.servedLink link chunk after).asked = link.asked := rfl
  have hquiet : (x.servedLink link chunk after).serving = none := hserving
  have hkept := Link.Inv.of_session (x.servedLink link chunk after) [] after.sent h
    (fun _ _ => id) ⟨rfl, rfl, rfl, rfl, rfl⟩ ⟨rfl, rfl⟩
  rw [List.append_nil] at hkept
  have hstays : (link.phase ≠ .handshake → after.phase ≠ .handshake) → link.phase ≠ .handshake →
      (x.servedLink link chunk after).phase ≠ .handshake ∧
        (x.servedLink link chunk after).session = link.session :=
    fun hphase hne => ⟨hphase hne, hsession hne⟩
  cases houtcome with
  | waits chunk' rest' phase sound some_bytes read pending runtime dispatched sent =>
    obtain ⟨hincoming, hleft⟩ := read
    obtain ⟨rfl, rfl⟩ := List.cons.inj hincoming
    have hread : after.stream.pending ++ (x.servedLink link chunk after).to_server =
        link.stream.pending ++ link.to_server := by
      show after.stream.pending ++ (after.incoming.flatten ++ link.to_server.drop chunk.length) = _
      rw [hbytes, hleft, pending, ← hrest, List.append_assoc]
      rfl
    have hsame : (x.servedLink link chunk after).sent = link.sent := by
      show link.sent ++ after.sent = link.sent
      rw [sent]
      exact List.append_nil _
    refine hkept (hstays (by rw [phase]; exact id)) h.in_order ?_
      (by rw [sent]; simp [Exchange.sessionState]) fun last hphase => ?_
    · cases hphase : link.phase with
      | ended why => exact Link.serves_ended (phase.trans hphase) answers
      | handshake =>
        obtain ⟨hempty, hsent, -, hcarries⟩ := (Link.serves_handshake hphase answers).mp h.serves
        exact (Link.serves_handshake (phase.trans hphase) answers).mpr
          ⟨hempty, hsame.trans hsent, hquiet, hcarries.read sound hread⟩
      | requests last =>
        obtain ⟨hstands, hcarries⟩ := (Link.serves_requests hphase answers).mp h.serves
        rw [Link.taken_none hserving] at hcarries
        refine (Link.serves_requests (phase.trans hphase) answers).mpr ⟨?_, ?_⟩
        · exact (Link.stands_none hquiet answers last).mpr
            ((Link.stands_none hserving answers last).mp hstands)
        · rw [Link.taken_none hquiet]
          exact hcarries.read sound hread
    · rw [hsame, Link.answered_none hquiet, ← Link.answered_none hserving answers]
      exact h.written last (phase.symm.trans hphase)
  | stops last frame stream request before running next check phase runtime dispatched sent =>
    obtain ⟨n, hrunning⟩ := running
    have hsome := Exchange.nextRequest_eq before hrunning next check
    rw [hnone] at hsome
    exact absurd hsome (by simp)
  | ends why phase alive runtime dispatched sent =>
    obtain ⟨parting, hsent, hparting⟩ := sent
    refine hkept (hstays (by rw [phase]; simp)) h.in_order (Link.serves_ended phase answers) ?_
      fun last hends => absurd (phase.symm.trans hends) (by simp)
    intro frame hframe
    rw [hsent] at hframe
    exact h.wrote_parting hwithin hserving rfl rfl hsession rfl (hparting frame hframe)
  | admits frame stream before next phase runtime bytes dispatched sent =>
    obtain ⟨hempty, hsent, -, hcarries⟩ := (Link.serves_handshake before answers).mp h.serves
    have hfit : Fit (Client.helloFrame link.config :: link.asked) :=
      fun other hother => (List.mem_cons.mp hother).elim (fun heq => heq ▸ hwithin.hello)
        (hwithin.fit other)
    obtain ⟨others, hothers, -, htaken⟩ := hcarries.next hfit next
    obtain ⟨-, rfl⟩ := List.cons.inj hothers
    have hto_server : (x.servedLink link chunk after).to_server = link.to_server := by
      show after.incoming.flatten ++ link.to_server.drop chunk.length = _
      rw [bytes.2, hbytes, ← hrest]
      simp [Exchange.sessionState]
    refine hkept (hstays (by rw [phase]; simp)) h.in_order ?_ ?_ fun _ _ => ?_
    · refine (Link.serves_requests phase answers).mpr ⟨?_, ?_⟩
      · refine (Link.stands_none hquiet answers 0).mpr ?_
        rw [hempty]
        rfl
      · rw [Link.taken_none hquiet, hto_server, hasked, hempty]
        show Carries _ after.stream _ _
        rw [bytes.1]
        exact htaken
    · intro reply hreply
      rw [sent] at hreply
      obtain rfl := List.mem_singleton.mp hreply
      refine Or.inl ⟨rfl, fun ack hdecode _ => ?_⟩
      have hread : decodeHelloAck (admissionFrame service.toService (x.connection link) x.runtime).payload =
          _ := decodeHelloAck_encode (by simp) (by simp only; decide)
      obtain rfl := Except.ok.inj (hread.symm.trans hdecode)
      refine ⟨?_, rfl, rfl⟩
      show after.phase ≠ .handshake
      rw [phase]
      simp
    · rw [Link.answered_none hquiet, hempty]
      show (link.sent ++ after.sent).length = 1
      rw [hsent, sent]
      rfl
  | serves last frame stream request before running next check runtime bytes dispatched sent phase =>
    obtain ⟨n, hrunning⟩ := running
    have hsome := Exchange.nextRequest_eq before hrunning next check
    rw [hnone] at hsome
    exact absurd hsome (by simp)

end Pass

end Fcfn.Net
