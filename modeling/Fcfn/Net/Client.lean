import Fcfn.Net.Responses

/-!
# The client

One connection of a client: `connect` writes a hello and waits for its acknowledgement, and `call`
writes a request and waits for its answer. A pass of either loop is a function of the client's state
and of what its read returns, should it come to read (`connectPass`, `callPass`); it returns nothing
while the loop goes on. Passes one after the other wait for an answer as `awaitResponse` does. -/

namespace Fcfn.Net

open Words Codec Streams

structure ClientConfig where
  token : Bytes
  label : Bytes := bytesOf "fcfn-client"
  deriving DecidableEq, Repr

structure Client where
  stream : FrameStream := {}
  handshake : HelloAckPayload := {}
  sequence : Sequence := 0
  deriving DecidableEq, Repr

/-- A text of ASCII bytes. -/
def textOf (bytes : Bytes) : String := String.ofList (bytes.map fun c => Char.ofNat c.toNat)

namespace Client

/-- The hello of a client. -/
def helloFrame (config : ClientConfig) : Frame :=
  { type := .hello, payload := encodeHello { token := config.token, label := config.label } }

/-- What reading once returns, if it ends the loop: an error when the read fails or finds the end of
the stream, or when the stream's bound is exceeded. -/
def readMore (c : Client) (chunk : Bytes) (closed exceeded : String) : Option Status × Client :=
  if chunk = [] then (some ⟨.ioError, closed⟩, c)
  else
    match c.stream.feed chunk with
    | (true, stream) => (none, { c with stream })
    | (false, stream) => (some ⟨.protocolViolation, exceeded⟩, { c with stream })

/-- The checks of the answer to a hello. -/
def acceptHandshake (frame : Frame) : Result HelloAckPayload := do
  require (frame.type == .helloAck) .protocolViolation "coordinator did not answer the handshake"
  let ack ← decodeHelloAck frame.payload
  require ack.accepted .unauthorized (textOf ack.reason)
  return ack

/-- A pass of the loop of `connect`. -/
def connectPass (c : Client) (chunk : Bytes) : Option (Result HelloAckPayload) × Client :=
  match c.stream.next with
  | (.needMore, _) =>
    let (status, c) := c.readMore chunk "coordinator closed the connection during handshake"
      "handshake exceeded the frame bound"
    (status.map .error, c)
  | (.refused refusal, stream) =>
    (some (fail .protocolViolation refusal.status.token), { c with stream })
  | (.complete frame, stream) =>
    match acceptHandshake frame with
    | .error status => (some (.error status), { c with stream })
    | .ok ack => (some (.ok ack), { c with stream, handshake := ack })

/-- The frame of the next call. -/
def requestFrame (c : Client) (request : RequestPayload) : Frame :=
  { type := .request, session := c.handshake.session, sequence := c.sequence + 1,
    epoch := c.handshake.epoch, payload := encodeRequest request }

/-- A pass of the loop of `call`. -/
def callPass (c : Client) (chunk : Bytes) : Option (Result ResponsePayload) × Client :=
  match c.stream.next with
  | (.needMore, _) =>
    let (status, c) := c.readMore chunk "coordinator closed the connection"
      "response exceeded the frame bound"
    (status.map .error, c)
  | (.refused refusal, stream) =>
    (some (fail .protocolViolation refusal.status.token), { c with stream })
  | (.complete frame, stream) =>
    (some (acceptResponse c.handshake.session c.sequence frame), { c with stream })

/-- A client that waits over what its reads return makes a pass over the first of it, and waits over
the others when the loop goes on. -/
theorem awaitResponse_cons (c : Client) (chunk : Bytes) (rest : List Bytes) :
    awaitResponse c.handshake.session c.sequence c.stream (chunk :: rest) =
      (c.callPass chunk).1.getD
        (awaitResponse c.handshake.session c.sequence (c.callPass chunk).2.stream rest) := by
  rw [awaitResponse, callPass]
  rcases c.stream.next with ⟨outcome, stream⟩
  cases outcome with
  | refused refusal => rfl
  | complete frame => rfl
  | needMore =>
    simp only [settle, readMore]
    split
    · rfl
    · rcases c.stream.feed chunk with ⟨fed, stream'⟩
      cases fed with
      | true => rfl
      | false => rfl

/-! ## What a pass does -/

/-- What reading once does to a client: it returns an error, or the chunk is pending. -/
theorem readMore_cases (c : Client) (chunk : Bytes) (closed exceeded : String) :
    (∃ status stream, c.readMore chunk closed exceeded = (some status, { c with stream }) ∧
        ((chunk = [] ∧ stream = c.stream) ∨ stream.poisoned = true)) ∨
      ∃ stream, c.readMore chunk closed exceeded = (none, { c with stream }) ∧
        stream.pending = c.stream.pending ++ chunk ∧ stream.poisoned = false := by
  unfold readMore
  split
  · rename_i hnone
    exact Or.inl ⟨_, c.stream, rfl, Or.inl ⟨hnone, rfl⟩⟩
  · cases hfeed : c.stream.feed chunk with
    | mk fed stream =>
      cases fed with
      | true =>
        obtain ⟨hpending, hsound⟩ := FrameStream.feed_ok hfeed
        exact Or.inr ⟨stream, rfl, hpending, hsound⟩
      | false => exact Or.inl ⟨_, stream, rfl, Or.inr (FrameStream.feed_poisoned hfeed)⟩

/-- Reading once keeps what the client knows of its session. -/
theorem readMore_keeps (c : Client) (chunk : Bytes) (closed exceeded : String) :
    (c.readMore chunk closed exceeded).2.handshake = c.handshake ∧
      (c.readMore chunk closed exceeded).2.sequence = c.sequence := by
  rcases c.readMore_cases chunk closed exceeded with ⟨status, stream, hread, -⟩ | ⟨stream, hread, -⟩
  · rw [hread]
    exact ⟨rfl, rfl⟩
  · rw [hread]
    exact ⟨rfl, rfl⟩

/-- A handshake is accepted when its frame is an acknowledgement that admits the session. -/
theorem acceptHandshake_eq_ok {frame : Frame} {ack : HelloAckPayload} :
    acceptHandshake frame = .ok ack ↔
      frame.type = .helloAck ∧ decodeHelloAck frame.payload = .ok ack ∧ ack.accepted = true := by
  unfold acceptHandshake
  rw [require_bind_eq_ok, beq_iff_eq, bind_eq_ok]
  refine and_congr_right fun _ => ⟨?_, fun ⟨hdecode, haccepted⟩ => ⟨ack, hdecode, ?_⟩⟩
  · rintro ⟨read, hdecode, hread⟩
    rw [require_bind_eq_ok, pure_eq_ok] at hread
    obtain ⟨haccepted, rfl⟩ := hread
    exact ⟨hdecode, haccepted⟩
  · rw [require_bind_eq_ok, pure_eq_ok]
    exact ⟨haccepted, rfl⟩

end Client

/-! ## What is read back -/

/-- The fields of the answer to a hello. -/
theorem decodeHelloAck_encode {ack : HelloAckPayload} (hreason : ack.reason.length ≤ kMaxStatusMessageLength)
    (hversion : ack.version.length ≤ 32) : decodeHelloAck (encodeHelloAck ack) = .ok ack := by
  refine Reads.runAll ?_ _
  refine (reads_u64 _).bind ((reads_u64 _).bind ((reads_u64 _).bind ((reads_u32 _).bind
    ((reads_boolean _).bind ((reads_blob hreason (by decide)).bind
      ((reads_blob hversion (by decide)).bind_pure (Reads.pure _)))))))

/-- A payload that fits its size is decoded as the response that was encoded, if at all. -/
theorem decodeResponse_recovers {response read : ResponsePayload}
    (hlen : (encodeResponse response).length < 2 ^ 32)
    (h : decodeResponse (encodeResponse response) = .ok read) : read = response := by
  have hrecovers : Recovers readResponse (encodeResponse response) (response.operation.toWord,
      response.code.toWord, { response with operation := .describe, code := .internal }) := by
    refine (reads_u16 _).recovers.bind ((reads_u16 _).recovers.bind (recovers_blob.bind
      (recovers_blob.bind (recovers_blob.bind_pure (Recovers.pure _)))))
  unfold decodeResponse at h
  rw [bind_eq_ok] at h
  obtain ⟨fields, hfields, h⟩ := h
  obtain rfl := hrecovers.runAll hlen hfields
  obtain ⟨hcode, hle⟩ := StatusCode.ofWord_toWord response.code
  simp only [Operation.ofWord_toWord, require_bind_eq_ok, hcode] at h
  exact (Except.ok.inj h.2).symm

end Fcfn.Net
