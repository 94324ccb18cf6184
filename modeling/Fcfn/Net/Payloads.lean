import Fcfn.Net.Frame

/-!
# Frame payloads

The documents of the handshake, of a request and of a response. The bounds stand in the decoders:
an encoder writes a document of any size. -/

namespace Fcfn.Net

open Words Codec

def kVersionString : Bytes := bytesOf "1.0.0"

/-! ## The handshake -/

structure HelloPayload where
  token : Bytes := []
  label : Bytes := []
  requested_epoch : CoordinatorEpoch := 0
  deriving DecidableEq, Repr

structure HelloAckPayload where
  session : SessionId := 0
  epoch : CoordinatorEpoch := 0
  boot : BootIdentity := ⟨0, 0⟩
  accepted : Bool := false
  reason : Bytes := []
  version : Bytes := []
  deriving DecidableEq, Repr

def encodeHello (hello : HelloPayload) : Bytes :=
  Write.u32 1 ++ (Write.blob hello.token ++ (Write.blob hello.label ++
    Write.u64 hello.requested_epoch))

/-- The fields of a hello, in the order they are read. -/
def readHello : Read (UInt32 × HelloPayload) := do
  let version ← Read.u32
  let token ← Read.text kMaxSessionTokenLength
  let label ← Read.text kMaxSessionLabelLength
  let requested_epoch ← Read.u64
  return (version, { token, label, requested_epoch })

def decodeHello (bytes : Bytes) : Result HelloPayload := do
  let (version, hello) ← Read.document readHello bytes
  require (version == 1) .versionUnsupported "hello version is not supported"
  require (hello.token != []) .unauthorized "hello carries no session token"
  return hello

def encodeHelloAck (ack : HelloAckPayload) : Bytes :=
  Write.u64 ack.session ++ (Write.u64 ack.epoch ++ (Write.u64 ack.boot.id ++
    (Write.u32 ack.boot.process_id ++ (Write.boolean ack.accepted ++ (Write.blob ack.reason ++
      Write.blob ack.version)))))

def decodeHelloAck (bytes : Bytes) : Result HelloAckPayload :=
  Read.document (do
    let session ← Read.u64
    let epoch ← Read.u64
    let id ← Read.u64
    let process_id ← Read.u32
    let accepted ← Read.boolean
    let reason ← Read.text kMaxStatusMessageLength
    let version ← Read.text 32
    return { session, epoch, boot := ⟨id, process_id⟩, accepted, reason, version }) bytes

/-! ## Requests -/

structure RequestPayload where
  operation : Operation := .describe
  arguments : Bytes := []
  deriving DecidableEq, Repr

def encodeRequest (request : RequestPayload) : Bytes :=
  Write.u16 request.operation.toWord ++ Write.blob request.arguments

/-- The fields of a request, in the order they are read. -/
def readRequest : Read (UInt16 × Bytes) := do
  let operation ← Read.u16
  let arguments ← Read.blob kMaxFramePayloadBytes
  return (operation, arguments)

def decodeRequest (bytes : Bytes) : Result RequestPayload := do
  let (operation, arguments) ← Read.document readRequest bytes
  match Operation.ofWord operation with
  | none => fail .invalidArgument "operation outside the defined domain"
  | some operation => return { operation, arguments }

/-- A request within the bound is read back. -/
theorem decodeRequest_encode {request : RequestPayload}
    (h : request.arguments.length ≤ kMaxFramePayloadBytes) :
    decodeRequest (encodeRequest request) = .ok request := by
  have hreads : Reads readRequest (encodeRequest request)
      (request.operation.toWord, request.arguments) :=
    (reads_u16 _).bind ((reads_blob h (by decide)).bind_pure (Reads.pure _))
  unfold decodeRequest Read.document
  rw [hreads.runAll]
  simp [bind, Except.bind, pure, Except.pure]

/-! ## Responses -/

structure ResponsePayload where
  operation : Operation := .describe
  code : StatusCode := .internal
  message : Bytes := []
  json : Bytes := []
  result : Bytes := []
  deriving DecidableEq, Repr

def encodeResponse (response : ResponsePayload) : Bytes :=
  Write.u16 response.operation.toWord ++ (Write.u16 response.code.toWord ++
    (Write.blob response.message ++ (Write.blob response.json ++ Write.blob response.result)))

/-- The fields of a response, in the order they are read. -/
def readResponse : Read (UInt16 × UInt16 × ResponsePayload) := do
  let operation ← Read.u16
  let code ← Read.u16
  let message ← Read.text kMaxStatusMessageLength
  let json ← Read.text (kMaxDiagnosticTextLength * 16)
  let result ← Read.blob kMaxFramePayloadBytes
  return (operation, code, { message, json, result })

def decodeResponse (bytes : Bytes) : Result ResponsePayload := do
  let (operation, code, response) ← Read.document readResponse bytes
  match Operation.ofWord operation with
  | none => fail .invalidArgument "response carries an out-of-domain value"
  | some operation =>
    require (code ≤ StatusCode.internal.toWord) .invalidArgument
      "response carries an out-of-domain value"
    return { response with operation, code := StatusCode.ofWord code }

end Fcfn.Net
