import Fcfn.Net.Documents
import Fcfn.Net.Messages
import Fcfn.Net.Session
import Fcfn.Runtime.Attempts

/-!
# Dispatch

A request is decoded, handed to the runtime, and answered with a document. The runtime with its
dispatch is the service that the sessions share (`coordinator`): no operation changes its epoch, so
a session dispatches exactly what the bytes it receives ask for (`session_dispatches`). -/

namespace Fcfn.Net

open Words Codec

def kSemanticVersion : UInt64 := 1

/-- A live runtime with the surroundings of its calls, the first to come first, and what it reports
of its startup and counts of its calls. -/
structure Served where
  state : RuntimeState
  surroundings : ℕ → Env
  calls : ℕ := 0
  report : StartupReport := {}
  stats : ℕ → RuntimeStats := fun _ => {}

namespace Served

/-- Perform a call. -/
def perform (served : Served) (call : Call) : Result Reply × Served :=
  let (outcome, state) :=
    Stateful.exec (Fcfn.perform (served.surroundings served.calls) call) served.state
  (outcome, { served with state, calls := served.calls + 1 })

end Served

/-- A response that succeeded. -/
def okWithJson (operation : Operation) (json : Bytes) (result : Bytes) : ResponsePayload :=
  { operation, code := .ok, json, result }

/-- A response that failed. A status keeps the front of its message. -/
def failWith (operation : Operation) (status : Status) : ResponsePayload :=
  { operation, code := status.code,
    message := (bytesOf status.message).take kMaxStatusMessageLength }

/-- The document that describes the runtime. -/
def describeJson (served : Served) : Bytes :=
  Json.object [("version", Json.text kVersionString),
    ("semantic_version", Json.number kSemanticVersion), ("startup", served.report.toJson),
    ("authority", served.state.currentAuthority.toJson),
    ("stats", (served.stats served.calls).toJson)]

/-- The document of a reply, once the runtime is in a state. -/
def replyJson (s : RuntimeState) : Reply → Bytes
  | .topology generation => Json.object [("topology_generation", Json.number generation)]
  | .policy generation => Json.object [("policy_generation", Json.number generation)]
  | .detection record => record.toJson
  | .authorization record => record.toJson
  | .plan plan => plan.toJson
  | .transition decision => decision.toJson
  | .submitted attempt => attempt.toJson
  | .acknowledged attempt => attempt.toJson
  | .verified attempt => attempt.toJson
  | .checkpointed => Json.object [("checkpointed", Json.flag true),
      ("sequence", Json.number s.currentAuthority.issued_sequence)]
  | .opened => []
  | .crashed => []

/-- The bytes that go with the document of a reply. -/
def replyResult : Reply → Bytes
  | .plan plan => plan.encode
  | _ => []

/-- Perform a call that was decoded from the arguments, and answer. -/
def answer (operation : Operation) (decoded : Result Call) (served : Served) :
    ResponsePayload × Served :=
  match decoded with
  | .error status => (failWith operation status, served)
  | .ok call =>
    match served.perform call with
    | (.error status, served) => (failWith operation status, served)
    | (.ok reply, served) =>
      (okWithJson operation (replyJson served.state reply) (replyResult reply), served)

/-- The document of the boundary in force. -/
def currentBoundary (s : RuntimeState) : Result Bytes :=
  match s.boundary with
  | none => fail .notFound "no containment boundary is current"
  | some boundary => .ok (Json.object [("boundary", boundary.toJson),
      ("effect_state", Json.string s.effect_state.token)])

/-- The retained plan of a generation. -/
def planByGeneration (s : RuntimeState) (generation : PlanGeneration) : Result ContainmentPlan :=
  match s.findPlan generation with
  | none => fail .notFound "plan generation is not retained"
  | some plan => .ok plan

/-- Build the response for one request. -/
def dispatch (operation : Operation) (arguments : Bytes) (served : Served) :
    ResponsePayload × Served :=
  match operation with
  | .describe => (okWithJson operation (describeJson served) [], served)
  | .applyTopology =>
    answer operation (do return .applyTopology (← Topology.decode arguments).toSpec) served
  | .applyPolicy =>
    answer operation (do return .applyPolicy (← ContainmentPolicy.decode arguments)) served
  | .recordDetection =>
    answer operation (do return .recordDetection (← decodeDetectionArguments arguments)) served
  | .authorize => answer operation (.ok .authorize) served
  | .plan => answer operation (do return .plan (← decodeAuthorizationReference arguments)) served
  | .transition =>
    answer operation (do return .transition (← decodeTransitionArguments arguments)) served
  | .submitApply =>
    answer operation (do
      let request ← decodeSubmitApplyArguments arguments
      return .submitApply request.authorization request.plan request.plan_digest) served
  | .acknowledge =>
    answer operation (do return .acknowledge (← decodeAcknowledgementArguments arguments)) served
  | .verifyEffect =>
    answer operation (do return .verifyEffect (← decodeVerificationArguments arguments)) served
  | .currentBoundary =>
    match currentBoundary served.state with
    | .error status => (failWith operation status, served)
    | .ok json => (okWithJson operation json [], served)
  | .planByGeneration =>
    match decodePlanGeneration arguments >>= planByGeneration served.state with
    | .error status => (failWith operation status, served)
    | .ok plan => (okWithJson operation plan.toJson plan.encode, served)
  | .attempts =>
    (okWithJson operation (Json.array (served.state.attempts.map ApplyAttempt.toJson)) [], served)
  | .evidence =>
    (okWithJson operation (Json.array (served.state.evidence.entries.map EvidenceEntry.toJson)) [],
      served)
  | .checkpoint => answer operation (.ok .checkpoint) served
  | .shutdown =>
    (okWithJson operation (Json.object [("shutdown", Json.flag true)]) [], served)

/-! ## The epoch -/

/-- A call keeps the epoch. -/
theorem Served.perform_epoch (served : Served) (call : Call) :
    (served.perform call).2.state.epoch = served.state.epoch :=
  (perform_outcome (served.surroundings served.calls) served.state call).incarnation.1

/-- Answering a request keeps the epoch. -/
theorem answer_epoch (operation : Operation) (decoded : Result Call) (served : Served) :
    (answer operation decoded served).2.state.epoch = served.state.epoch := by
  unfold answer
  split
  · rfl
  · rename_i call
    have hepoch := served.perform_epoch call
    split
    · rename_i status served' hperform
      rw [hperform] at hepoch
      exact hepoch
    · rename_i reply served' hperform
      rw [hperform] at hepoch
      exact hepoch

/-- Dispatching a request keeps the epoch. -/
theorem dispatch_epoch (operation : Operation) (arguments : Bytes) (served : Served) :
    (dispatch operation arguments served).2.state.epoch = served.state.epoch := by
  cases operation with
  | currentBoundary =>
    unfold dispatch
    dsimp only
    split
    · rfl
    · rfl
  | planByGeneration =>
    unfold dispatch
    dsimp only
    split
    · rfl
    · rfl
  | describe => rfl
  | attempts => rfl
  | evidence => rfl
  | shutdown => rfl
  | _ => exact answer_epoch _ _ served

/-- The coordinator as a service. -/
def coordinator : Service Served where
  epoch served := served.state.epoch
  boot served := served.state.boot
  dispatch := dispatch
  epoch_dispatch := dispatch_epoch

/-! ## What a session dispatches -/

namespace Sample

/-- A coordinator in its third epoch. -/
def served : Served where
  state := { config := Fcfn.Sample.config, policy := { generation := 1 }, epoch := 3 }
  surroundings := fun _ => Fcfn.Sample.env

/-- A server with a token. -/
def config : ServerConfig := { session_token := bytesOf "t" }

/-- The seventh session. -/
def connection : Connection := { session := 7 }

/-- A request frame of the session. -/
def requestFrame (sequence : Sequence) (request : RequestPayload) : Frame :=
  { session := 7, sequence := sequence, epoch := 3, payload := encodeRequest request }

/-- A hello, a request and a shutdown. -/
def bytes : Bytes :=
  encodeFrame { type := .hello, payload := encodeHello { token := bytesOf "t" } } ++
    encodeFrame (requestFrame 1 { operation := .attempts }) ++
    encodeFrame (requestFrame 2 { operation := .shutdown })

/-- The bytes in two chunks that cut the hello in the middle. -/
def chunks : List Bytes := [bytes.take 40, bytes.drop 40]

end Sample

/-- Whatever bytes a client sends and whatever pieces they arrive in, a session that is admitted,
whose stream stays within its bound and that nothing stops dispatches, once each and
in their order, the requests of the longest part of valid request frames after a right hello, up to
a shutdown, and nothing else. -/
theorem session_dispatches (config : ServerConfig) (connection : Connection) (served : Served)
    (incoming : List Bytes)
    (hend : (runSession coordinator config connection served incoming).isInterrupted = false) :
    Expected config.session_token connection.session served.state.epoch
      (framesOf (received incoming))
      (runSession coordinator config connection served incoming).dispatched :=
  runSession_expected served incoming hend

set_option maxRecDepth 8000 in
/-- A session that is cut in the middle of its hello. -/
theorem session_dispatches_chunks :
    (runSession coordinator Sample.config Sample.connection Sample.served
        Sample.chunks).dispatched = [{ operation := .attempts }, { operation := .shutdown }] ∧
      Expected Sample.config.session_token Sample.connection.session Sample.served.state.epoch
        (framesOf (received Sample.chunks))
        (runSession coordinator Sample.config Sample.connection Sample.served
          Sample.chunks).dispatched :=
  ⟨by decide +kernel, session_dispatches Sample.config Sample.connection Sample.served Sample.chunks
    (by decide +kernel)⟩

end Fcfn.Net
