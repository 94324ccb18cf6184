import Fcfn.Net.Dispatch
import Mathlib.Algebra.Order.BigOperators.Group.List

/-!
# Responses

What a client makes of the answer to its request. The encoders write a response of any size and the
decoders are bounded, so an answer is read back exactly when its document and its payload are within
the bounds (`response_read_iff`); the message always is. -/

namespace Fcfn.Net

open Words Codec Streams

/-! ## The client -/

/-- The checks of the client on a response frame. -/
def acceptResponse (session : SessionId) (sequence : Sequence) (frame : Frame) :
    Result ResponsePayload := do
  require (frame.type == .response) .protocolViolation "coordinator sent an unexpected message type"
  require (frame.session == session) .unauthorized "response belongs to another session"
  require (frame.sequence == sequence) .sequenceRegression
    "response sequence does not match the request"
  decodeResponse frame.payload

/-- What the client makes of the next frame, and what it does when there is none yet. -/
def settle (session : SessionId) (sequence : Sequence) (outcome : DecodeOutcome)
    (more : Result ResponsePayload) : Result ResponsePayload :=
  match outcome with
  | .needMore => more
  | .refused refusal => fail .protocolViolation refusal.status.token
  | .complete frame => acceptResponse session sequence frame

/-- The client's wait for the answer to a request, over what its reads return. -/
def awaitResponse (session : SessionId) (sequence : Sequence) :
    FrameStream → List Bytes → Result ResponsePayload
  | stream, [] =>
    settle session sequence stream.next.1 (fail .ioError "coordinator closed the connection")
  | stream, chunk :: rest =>
    settle session sequence stream.next.1
      (if chunk = [] then fail .ioError "coordinator closed the connection"
      else
        match stream.feed chunk with
        | (true, stream) => awaitResponse session sequence stream rest
        | (false, _) => fail .protocolViolation "response exceeded the frame bound")

/-! ## Responses within the bounds -/

/-- The bounds of the decoders. -/
structure ResponsePayload.Readable (response : ResponsePayload) : Prop where
  message_le : response.message.length ≤ kMaxStatusMessageLength
  json_le : response.json.length ≤ kMaxDiagnosticTextLength * 16
  payload_le : (encodeResponse response).length ≤ kMaxFramePayloadBytes

/-- How long a response's payload is. -/
theorem length_encodeResponse (response : ResponsePayload) :
    (encodeResponse response).length =
      16 + response.message.length + response.json.length + response.result.length := by
  simp only [encodeResponse, Write.u16, Write.blob, Write.size, Write.u32, List.length_append,
    length_le16, length_le32]
  omega

/-- A response within the bounds is read back from its payload. -/
theorem decodeResponse_encode {response : ResponsePayload} (h : response.Readable) :
    decodeResponse (encodeResponse response) = .ok response := by
  have hpayload := h.payload_le
  rw [length_encodeResponse] at hpayload
  have hreads : Reads readResponse (encodeResponse response) (response.operation.toWord,
      response.code.toWord, { response with operation := .describe, code := .internal }) := by
    refine (reads_u16 _).bind ((reads_u16 _).bind ((reads_blob h.message_le (by decide)).bind
      ((reads_blob h.json_le (by decide)).bind ((reads_blob (by omega) (by decide)).bind_pure ?_))))
    exact Reads.pure _
  obtain ⟨hcode, hle⟩ := StatusCode.ofWord_toWord response.code
  unfold decodeResponse Read.document
  rw [hreads.runAll]
  simp [bind, Except.bind, pure, Except.pure, require, hle, hcode]

/-- What the decoder of responses returns is within its bounds. -/
theorem decodeResponse_returns {bytes : Bytes} {response : ResponsePayload}
    (h : decodeResponse bytes = .ok response) :
    response.message.length ≤ kMaxStatusMessageLength ∧
      response.json.length ≤ kMaxDiagnosticTextLength * 16 ∧
      response.result.length ≤ kMaxFramePayloadBytes := by
  have hreturns : Returns readResponse fun read =>
      read.2.2.message.length ≤ kMaxStatusMessageLength ∧
        read.2.2.json.length ≤ kMaxDiagnosticTextLength * 16 ∧
        read.2.2.result.length ≤ kMaxFramePayloadBytes := by
    refine Returns.after fun operation => Returns.after fun code => ?_
    refine returns_blob.bind fun message hmessage => returns_blob.bind fun json hjson => ?_
    exact returns_blob.bind fun result hresult => Returns.pure ⟨hmessage, hjson, hresult⟩
  unfold decodeResponse at h
  rw [bind_eq_ok] at h
  obtain ⟨⟨operation, code, read⟩, hread, h⟩ := h
  have hbounds := hreturns.runAll hread
  dsimp only at h
  split at h
  · exact absurd h (by simp [fail])
  · rw [require_bind_eq_ok] at h
    obtain rfl := Except.ok.inj h.2
    exact hbounds

/-! ## Waiting for a frame -/

section Await

variable {session : SessionId} {sequence : Sequence}

/-- A client that gets an answer has found a frame at the front of the bytes and has accepted it. -/
theorem awaitResponse_ok {stream : FrameStream} {chunks : List Bytes} {response : ResponsePayload}
    (hsound : stream.poisoned = false)
    (h : awaitResponse session sequence stream chunks = .ok response) :
    ∃ frame, decodeFrame (stream.pending ++ chunks.flatten) = .complete frame ∧
      acceptResponse session sequence frame = .ok response := by
  induction chunks generalizing stream with
  | nil =>
    rw [awaitResponse, FrameStream.next_fst hsound] at h
    rw [List.flatten_nil, List.append_nil]
    cases hdecode : decodeFrame stream.pending with
    | needMore => rw [hdecode] at h; exact absurd h (by simp [settle, fail])
    | refused refusal => rw [hdecode] at h; exact absurd h (by simp [settle, fail])
    | complete frame =>
      rw [hdecode] at h
      exact ⟨frame, rfl, h⟩
  | cons chunk rest ih =>
    rw [awaitResponse, FrameStream.next_fst hsound] at h
    cases hdecode : decodeFrame stream.pending with
    | refused refusal => rw [hdecode] at h; exact absurd h (by simp [settle, fail])
    | complete frame =>
      rw [hdecode] at h
      exact ⟨frame, decodeFrame_incremental.complete hdecode _, h⟩
    | needMore =>
      rw [hdecode] at h
      simp only [settle] at h
      split at h
      · exact absurd h (by simp [fail])
      split at h
      · rename_i stream' hfeed
        obtain ⟨hpending, hsound'⟩ := FrameStream.feed_ok hfeed
        obtain ⟨frame, hframe, haccept⟩ := ih hsound' h
        refine ⟨frame, ?_, haccept⟩
        rw [List.flatten_cons, ← List.append_assoc, ← hpending, hframe]
      · exact absurd h (by simp [fail])

/-- A client that receives a frame of at most the largest size, in any pieces, looks at it. -/
theorem awaitResponse_of_frame {stream : FrameStream} {chunks : List Bytes} {frame : Frame}
    (hsound : stream.poisoned = false) (hchunks : ∀ chunk ∈ chunks, chunk ≠ [])
    (hframe : decodeFrame (stream.pending ++ chunks.flatten) = .complete frame)
    (hbound : (stream.pending ++ chunks.flatten).length ≤ kMaxBufferedBytes) :
    awaitResponse session sequence stream chunks = acceptResponse session sequence frame := by
  induction chunks generalizing stream with
  | nil =>
    rw [List.flatten_nil, List.append_nil] at hframe
    rw [awaitResponse, FrameStream.next_fst hsound, hframe]
    rfl
  | cons chunk rest ih =>
    rw [awaitResponse, FrameStream.next_fst hsound]
    cases hdecode : decodeFrame stream.pending with
    | refused refusal =>
      rw [decodeFrame_incremental.refused hdecode] at hframe
      exact absurd hframe (by simp)
    | complete first =>
      rw [decodeFrame_incremental.complete hdecode] at hframe
      rw [Found.complete.inj hframe]
      rfl
    | needMore =>
      rw [List.flatten_cons, ← List.append_assoc] at hframe hbound
      have hfits : stream.pending.length + chunk.length ≤ kMaxBufferedBytes := by
        rw [List.length_append, List.length_append] at hbound
        omega
      have hfed := FrameStream.feed_within hsound hfits
      simp only [settle]
      rw [if_neg (hchunks chunk (by simp))]
      cases hfeed : stream.feed chunk with
      | mk fed stream' =>
        rw [hfeed] at hfed
        obtain rfl : fed = true := hfed
        obtain ⟨hpending, hsound'⟩ := FrameStream.feed_ok hfeed
        rw [← hpending] at hframe hbound
        exact ih hsound' (fun other hother => hchunks other (by simp [hother])) hframe hbound

end Await

/-- An answer to a request is read back exactly when it is within the bounds. -/
theorem awaitResponse_iff {stream : FrameStream} {request : Frame} {response : ResponsePayload}
    {chunks : List Bytes} (hsound : stream.poisoned = false) (hpending : stream.pending = [])
    (hchunks : ∀ chunk ∈ chunks, chunk ≠ [])
    (hflatten : chunks.flatten = encodeFrame (responseFrame request response)) :
    awaitResponse request.session request.sequence stream chunks = .ok response ↔
      response.Readable := by
  have hbytes : stream.pending ++ chunks.flatten =
      encodeFrame (responseFrame request response) ++ [] := by
    rw [hpending, hflatten, List.nil_append, List.append_nil]
  constructor
  · intro h
    obtain ⟨frame, hframe, haccept⟩ := awaitResponse_ok hsound h
    simp only [acceptResponse, require_bind_eq_ok] at haccept
    obtain ⟨-, -, -, hdecode⟩ := haccept
    obtain ⟨hmessage, hjson, hresult⟩ := decodeResponse_returns hdecode
    -- The sizes that were read back are those of the response, so its length fits 32 bits.
    have hlen : (responseFrame request response).payload.length < 2 ^ 32 := by
      show (encodeResponse response).length < 2 ^ 32
      rw [length_encodeResponse]
      simp only [kMaxStatusMessageLength, kMaxDiagnosticTextLength, kMaxFramePayloadBytes] at *
      omega
    rw [hbytes, decodeFrame_header hlen] at hframe
    refine ⟨hmessage, hjson, ?_⟩
    by_contra hover
    rw [if_pos (by show (encodeResponse response).length > _; omega)] at hframe
    exact absurd hframe (by simp)
  · intro h
    have hframe : decodeFrame (stream.pending ++ chunks.flatten) =
        .complete (responseFrame request response) := by
      rw [hbytes]
      exact decodeFrame_encode h.payload_le []
    have hbound : (stream.pending ++ chunks.flatten).length ≤ kMaxBufferedBytes := by
      rw [hbytes, List.append_nil, length_encodeFrame]
      have hpayload := h.payload_le
      show kWireHeaderBytes + (encodeResponse response).length ≤
        kMaxFramePayloadBytes + kWireHeaderBytes
      omega
    rw [awaitResponse_of_frame hsound hchunks hframe hbound]
    simp only [acceptResponse, require_bind_eq_ok, beq_iff_eq]
    exact ⟨rfl, rfl, rfl, decodeResponse_encode h⟩

/-! ## The answers of the coordinator -/

/-- The message of a failed response is cut to the bound. -/
theorem message_failWith (operation : Operation) (status : Status) :
    (failWith operation status).message.length ≤ kMaxStatusMessageLength := by
  unfold failWith
  rw [List.length_take]
  exact min_le_left _ _

/-- The message of an answer is within the bound. -/
theorem message_answer (operation : Operation) (decoded : Result Call) (served : Served) :
    (answer operation decoded served).1.message.length ≤ kMaxStatusMessageLength := by
  unfold answer
  split
  · exact message_failWith _ _
  split
  · exact message_failWith _ _
  · exact Nat.zero_le _

/-- The message of a response is within the bound. -/
theorem message_dispatch (operation : Operation) (arguments : Bytes) (served : Served) :
    (dispatch operation arguments served).1.message.length ≤ kMaxStatusMessageLength := by
  cases operation with
  | currentBoundary =>
    unfold dispatch
    dsimp only
    split
    · exact message_failWith _ _
    · exact Nat.zero_le _
  | planByGeneration =>
    unfold dispatch
    dsimp only
    split
    · exact message_failWith _ _
    · exact Nat.zero_le _
  | describe => exact Nat.zero_le _
  | attempts => exact Nat.zero_le _
  | evidence => exact Nat.zero_le _
  | shutdown => exact Nat.zero_le _
  | _ => exact message_answer _ _ _

/-- A client that has read everything before reads the answer to its request, in whatever pieces it
arrives, exactly when the document and the payload of the answer are within the bounds. -/
theorem response_read_iff (served : Served) (request : Frame) (operation : Operation)
    (arguments : Bytes) (stream : FrameStream) (hsound : stream.poisoned = false)
    (hpending : stream.pending = []) (chunks : List Bytes)
    (hchunks : ∀ chunk ∈ chunks, chunk ≠ [])
    (hflatten : chunks.flatten =
      encodeFrame (responseFrame request (dispatch operation arguments served).1)) :
    awaitResponse request.session request.sequence stream chunks =
        .ok (dispatch operation arguments served).1 ↔
      (dispatch operation arguments served).1.json.length ≤ kMaxDiagnosticTextLength * 16 ∧
        (encodeResponse (dispatch operation arguments served).1).length ≤
          kMaxFramePayloadBytes := by
  rw [awaitResponse_iff hsound hpending hchunks hflatten]
  constructor
  · intro h
    exact ⟨h.json_le, h.payload_le⟩
  · rintro ⟨hjson, hpayload⟩
    exact ⟨message_dispatch operation arguments served, hjson, hpayload⟩

/-- The answer to a shutdown. -/
theorem response_read_shutdown :
    awaitResponse 7 2 {} [encodeFrame (responseFrame (Sample.requestFrame 2 {})
        (dispatch .shutdown [] Sample.served).1)] = .ok (dispatch .shutdown [] Sample.served).1 :=
  (response_read_iff Sample.served (Sample.requestFrame 2 {}) .shutdown [] {} rfl rfl
    [encodeFrame (responseFrame (Sample.requestFrame 2 {})
      (dispatch .shutdown [] Sample.served).1)] (by decide +kernel) (by simp)).mpr ⟨by decide +kernel, by decide +kernel⟩

/-! ## A table of attempts -/

/-- Escaping does not shorten a text. -/
theorem length_text (bytes : Bytes) : bytes.length + 2 ≤ (Json.text bytes).length := by
  have hescape : ∀ text : Bytes, text.length ≤ (text.flatMap Json.escapeByte).length := by
    intro text
    refine length_le_flatMap text fun c _ => ?_
    unfold Json.escapeByte
    split_ifs <;> simp
  have h := hescape bytes
  unfold Json.text
  rw [List.length_cons, List.length_append, List.length_singleton]
  omega

/-- Elements with commas between them are as long as the elements at least. -/
theorem length_separated (elements : List Bytes) :
    (elements.map List.length).sum ≤ (Json.separated elements).length := by
  unfold Json.separated
  induction elements with
  | nil => simp
  | cons element rest ih =>
    cases rest with
    | nil => simp
    | cons next rest =>
      rw [List.intersperse_cons_cons, List.flatten_cons, List.flatten_cons, List.length_append,
        List.length_append, List.map_cons, List.sum_cons]
      omega

/-- A document is as long as its keys and its values at least. -/
theorem length_object (members : List (String × Bytes)) :
    (members.map fun m => m.1.length + 3 + m.2.length).sum ≤ (Json.object members).length := by
  have hmember : ∀ m : String × Bytes, m.1.length + 3 + m.2.length ≤ (Json.member m.1 m.2).length := by
    intro m
    have hkey := length_text (bytesOf m.1)
    have hlen : (bytesOf m.1).length = m.1.length := by
      rw [bytesOf, List.length_map, String.length_toList]
    unfold Json.member
    rw [List.length_append, List.length_cons]
    omega
  have hsum := length_separated (members.map fun m => Json.member m.1 m.2)
  rw [List.map_map] at hsum
  calc (members.map fun m => m.1.length + 3 + m.2.length).sum
      ≤ (members.map (List.length ∘ fun m => Json.member m.1 m.2)).sum :=
        List.sum_le_sum fun m _ => hmember m
    _ ≤ (Json.separated (members.map fun m => Json.member m.1 m.2)).length := hsum
    _ ≤ (Json.object members).length := by
      unfold Json.object
      rw [List.length_cons, List.length_append]
      omega

/-- The hexadecimal digits of a number are as many as asked for. -/
theorem length_hexDigits (k n : ℕ) : (hexDigits k n).length = k := by
  induction k generalizing n with
  | zero => rfl
  | succ k ih => rw [hexDigits, List.length_append, ih, List.length_singleton]

/-- A digest takes 32 digits and two quotes. -/
theorem length_digest (d : Digest) : 34 ≤ (Json.digest d).length := by
  have h := length_text (hexDigits 16 d.hi.toNat ++ hexDigits 16 d.lo.toNat)
  rw [List.length_append, length_hexDigits, length_hexDigits] at h
  exact h

/-- The document of an attempt takes 400 bytes at least. -/
theorem length_attempt (attempt : ApplyAttempt) : 400 ≤ attempt.toJson.length := by
  have hkeys : (["plan_generation", "attempt_sequence", "state", "plan_digest", "boundary_digest",
      "boundary_generation", "epoch", "boot_id", "boot_pid", "submitted_sequence", "applier_epoch",
      "applier_boot_id", "applier_boot_pid", "observed_boundary_digest", "submitted_at_millis",
      "acknowledged_at_millis", "verified_at_millis", "explanation"].map String.length).sum = 257 := by
    decide
  have hplan := length_digest attempt.plan_digest
  have hboundary := length_digest attempt.boundary_digest
  have hobserved := length_digest attempt.observed_boundary_digest
  refine le_trans ?_ (length_object _)
  simp only [bootMembers, List.map_append, List.map_cons, List.map_nil, List.sum_append,
    List.sum_cons, List.sum_nil] at hkeys ⊢
  omega

/-- The document of a table of attempts takes 400 bytes for each of them at least. -/
theorem length_attempts (attempts : List ApplyAttempt) :
    400 * attempts.length ≤ (Json.array (attempts.map ApplyAttempt.toJson)).length := by
  have hsum := length_separated (attempts.map ApplyAttempt.toJson)
  have hcount : 400 * attempts.length ≤
      ((attempts.map ApplyAttempt.toJson).map List.length).sum := by
    rw [List.map_map, mul_comm, ← List.length_map (f := List.length ∘ ApplyAttempt.toJson)]
    refine List.card_nsmul_le_sum _ 400 fun n hn => ?_
    obtain ⟨attempt, -, rfl⟩ := List.mem_map.mp hn
    exact length_attempt attempt
  unfold Json.array
  rw [List.length_cons, List.length_append]
  omega

namespace Sample

/-- The enforcement plane is asked again and refuses. -/
def refusal (attempt : ℕ) : List Event :=
  [Fcfn.Sample.does (.submitApply 1 1 (Fcfn.Sample.planDigest Fcfn.Sample.submitted 1)),
    Fcfn.Sample.does (.acknowledge ⟨⟨1, UInt64.ofNat attempt⟩, 1, Fcfn.Sample.boot 1, 1,
      Fcfn.Sample.boot 9, UInt64.ofNat attempt,
      Fcfn.Sample.boundaryDigest Fcfn.Sample.submitted 1, false⟩)]

/-- The enforcement plane refuses the boundary twenty-one times. -/
def refusals : List Event :=
  Fcfn.Sample.submitted ++ (refusal 1).tail ++ (List.range' 2 20).flatMap refusal

/-- The coordinator in a state. -/
def servedFrom (s : RuntimeState) : Served where
  state := s
  surroundings := fun _ => Fcfn.Sample.env

end Sample

/-- After twenty-one refused attempts the answer that lists the attempts cannot be read. -/
theorem attempts_unreadable :
    ∃ s, (Runs.exec System.next {} Sample.refusals).runtime = some s ∧
      ∀ chunks : List Bytes, (∀ chunk ∈ chunks, chunk ≠ []) →
        chunks.flatten = encodeFrame (responseFrame (Sample.requestFrame 1 { operation := .attempts })
          (dispatch .attempts [] (Sample.servedFrom s)).1) →
        awaitResponse 7 1 {} chunks ≠ .ok (dispatch .attempts [] (Sample.servedFrom s)).1 := by
  have hmany : ((Runs.exec System.next {} Sample.refusals).runtime.any
      fun s => decide (21 ≤ s.attempts.length)) = true := by decide +kernel
  obtain ⟨s, hrun, hlen⟩ := Option.any_eq_true _ _ |>.mp hmany
  rw [decide_eq_true_eq] at hlen
  refine ⟨s, hrun, fun chunks hchunks hflatten hread => ?_⟩
  have hreadable := (@awaitResponse_iff {} _ _ _ rfl rfl hchunks hflatten).mp hread
  have hjson := hreadable.json_le
  have hlong := length_attempts s.attempts
  have hdocument : (dispatch .attempts [] (Sample.servedFrom s)).1.json =
      Json.array (s.attempts.map ApplyAttempt.toJson) := rfl
  rw [hdocument] at hjson
  simp only [kMaxDiagnosticTextLength] at hjson
  omega

end Fcfn.Net
