import Fcfn.Lib.Runs
import Fcfn.Lib.Shared
import Fcfn.Net.Chunking
import Fcfn.Net.Client

/-!
# The exchange

A server and its clients, each on a connection of its own. A `Link` is a connection: its client, the
session that serves it, and the bytes under way between them. Clients call, threads make passes of
their loops, reads return as much as they like of what is under way or fail, connections break, and
the process is killed, in any order (`Exchange.step`).

A session's pass is that of `run_session` on what its read returns, but for a request that it
serves. The runtime has a lock of its own, which a dispatch takes once for most operations and twice
for the others, and other sessions may come between: a request is taken, it takes effect, and it is
answered, in three steps (`SharedService`). A session that nothing comes between makes the pass of
`run_session` (`Exchange.serve_pass`). -/

namespace Fcfn.Net

open Words Codec Streams

/-! ## Connections -/

/-- Where a client is: in the loop of `connect`, between calls, or in the loop of `call`. -/
inductive ClientPhase
  | connecting
  | refused (status : Status)
  | ready
  | waiting
  deriving DecidableEq, Repr

/-- A request that a session is serving. -/
structure Serving where
  frame : Frame
  request : RequestPayload
  /-- Which of the mutating requests it is. -/
  ordinal : UInt64 := 0
  /-- The response as far as it was found when the request took effect. -/
  found : Option ResponsePayload := none
  deriving DecidableEq, Repr

structure Link where
  config : ClientConfig
  client : Client := {}
  client_phase : ClientPhase := .connecting
  /-- The server has accepted the connection, and a thread serves it. -/
  accepted : Bool := false
  stream : FrameStream := {}
  phase : Phase := .handshake
  session : SessionId := 0
  serving : Option Serving := none
  to_server : Bytes := []
  to_client : Bytes := []
  /-- Nothing that is written gets through any more. -/
  broken : Bool := false
  /-- What the client has asked for, and what its calls have returned. -/
  calls : List RequestPayload := []
  results : List (Result ResponsePayload) := []
  /-- What the session has written. -/
  sent : List Frame := []
  deriving DecidableEq

namespace Link

/-- What a read returns of the bytes under way: at most as many as asked for, and nothing when it
fails. -/
def readOf (under_way : Bytes) : Option ℕ → Bytes
  | none => []
  | some n => under_way.take (min n kReadChunkBytes)

/-- A read waits for bytes. -/
def Blocks (stream : FrameStream) (under_way : Bytes) (at_end : Bool) (read : Option ℕ) : Prop :=
  stream.next.1 = .needMore ∧ at_end = false ∧ read.isSome ∧ readOf under_way read = []

instance Blocks.instDecidable (stream : FrameStream) (under_way : Bytes) (at_end : Bool)
    (read : Option ℕ) : Decidable (Blocks stream under_way at_end read) :=
  inferInstanceAs (Decidable (_ ∧ _ ∧ _ ∧ _))

/-- The session makes no more passes. -/
def isStopped (link : Link) : Bool :=
  match link.phase with
  | .ended _ => true
  | _ => false

/-- The session is over, and has shut its socket down: one that stops at a crash point waits there
for the process to be killed. -/
def isOver (link : Link) : Bool := link.isStopped && link.phase != .ended .exited

/-- The client calls. The connection may break after some bytes of the request. -/
def call (link : Link) (request : RequestPayload) (written : Option ℕ) : Link :=
  let bytes := encodeFrame (link.client.requestFrame request)
  let unwritten : Result ResponsePayload :=
    fail .interrupted "socket write failed or was released"
  let link := { link with
    client := { link.client with sequence := link.client.sequence + 1 }
    calls := link.calls ++ [request] }
  if link.broken then { link with results := link.results ++ [unwritten] }
  else
    match written with
    | none => { link with to_server := link.to_server ++ bytes, client_phase := .waiting }
    | some n => { link with
        to_server := link.to_server ++ bytes.take n
        broken := true
        results := link.results ++ [unwritten] }

/-- The client makes a pass over what its read returns. -/
def receive (link : Link) (chunk : Bytes) : Link :=
  let rest :=
    if link.client.stream.next.1 = .needMore then link.to_client.drop chunk.length
    else link.to_client
  match link.client_phase with
  | .connecting =>
    match link.client.connectPass chunk with
    | (none, client) => { link with client, to_client := rest }
    | (some (.ok _), client) => { link with client, to_client := rest, client_phase := .ready }
    | (some (.error status), client) =>
      { link with client, to_client := rest, client_phase := .refused status, broken := true }
  | .waiting =>
    match link.client.callPass chunk with
    | (none, client) => { link with client, to_client := rest }
    | (some result, client) => { link with
        client, to_client := rest, client_phase := .ready, results := link.results ++ [result] }
  | .ready => link
  | .refused _ => link

/-- The connection breaks, and only some of the bytes under way still arrive. -/
def cut (link : Link) (to_server to_client : ℕ) : Link :=
  { link with
    broken := true
    to_server := link.to_server.take to_server
    to_client := link.to_client.take to_client }

end Link

/-! ## The system -/

/-- A service that sessions share. A request takes effect at once, and the session may look at the
runtime again before it answers. -/
structure SharedService (ρ : Type) extends Service ρ where
  effect : RequestPayload → ρ → ResponsePayload × ρ
  look : RequestPayload → ResponsePayload → ρ → ResponsePayload
  dispatch_eq : ∀ request runtime, dispatch request.operation request.arguments runtime =
    (look request (effect request runtime).1 (effect request runtime).2, (effect request runtime).2)

/-- The requests that took effect, with the number of their connection and what they found. -/
abbrev History := List (Shared.Entry ℕ RequestPayload ResponsePayload)

/-- A server and its connections. -/
structure Exchange (ρ : Type) where
  runtime : ρ
  session_counter : UInt64 := 0
  mutation_counter : UInt64 := 0
  shutting_down : Bool := false
  /-- The process was killed. -/
  exited : Bool := false
  sockets : List ℕ := []
  links : List Link := []
  history : History := []

/-- What can happen. A thread's pass comes with how many bytes its read asks for, if it does not
fail. -/
inductive ExchangeEvent
  | connect (config : ClientConfig)
  | accept (link : ℕ)
  | serve (link : ℕ) (read : Option ℕ)
  /-- The thread of a session that is over removes its socket. -/
  | remove (link : ℕ)
  | call (link : ℕ) (request : RequestPayload) (written : Option ℕ)
  | receive (link : ℕ) (read : Option ℕ)
  | cut (link : ℕ) (to_server to_client : ℕ)
  | shutdown
  | kill

namespace Exchange

variable {ρ : Type} (service : SharedService ρ) (config : ServerConfig)

/-- Change a connection. -/
def update (x : Exchange ρ) (i : ℕ) (f : Link → Link) : Exchange ρ :=
  match x.links[i]? with
  | none => x
  | some link => { x with links := x.links.set i (f link) }

/-- What surrounds the session of a connection. -/
def connection (x : Exchange ρ) (link : Link) : Connection where
  session := if link.phase = .handshake then x.session_counter + 1 else link.session
  open_sessions := x.sockets.length
  ack_written := !link.broken
  shutting_down := fun _ => x.shutting_down

/-- The variables of the session of a connection. -/
def sessionState (x : Exchange ρ) (link : Link) (chunk : Bytes) : SessionState ρ where
  runtime := x.runtime
  incoming := [chunk]
  stream := link.stream
  phase := link.phase
  mutation_counter := x.mutation_counter

/-- The pass of a session over what its read returns. -/
def sessionPass (x : Exchange ρ) (link : Link) (chunk : Bytes) : SessionState ρ :=
  pass service.toService config (x.connection link) (x.sessionState link chunk)

/-- The connection after a pass of its session. -/
def servedLink (x : Exchange ρ) (link : Link) (chunk : Bytes) (after : SessionState ρ) : Link :=
  { link with
    stream := after.stream
    phase := after.phase
    session := (x.connection link).session
    to_server := after.incoming.flatten ++ link.to_server.drop chunk.length
    to_client :=
      if link.broken then link.to_client else link.to_client ++ after.sent.flatMap encodeFrame
    sent := link.sent ++ after.sent }

/-- A session's thread makes a pass that serves no request. Admitting a session takes its identity
from the counter. -/
def servePass (x : Exchange ρ) (i : ℕ) (link : Link) (chunk : Bytes) : Exchange ρ :=
  let after := x.sessionPass service config link chunk
  { x with
    session_counter :=
      if link.phase = .handshake ∧ (after.phase = .requests 0 ∨ after.phase = .ended .ackFailed) then
        x.session_counter + 1
      else x.session_counter
    links := x.links.set i (x.servedLink link chunk after) }

/-- The request that a session's pass comes to serve, and its stream without it. -/
def nextRequest (x : Exchange ρ) (link : Link) : Option (Frame × RequestPayload × FrameStream) :=
  match link.phase with
  | .requests last =>
    if x.shutting_down then none
    else
      match link.stream.next with
      | (.complete frame, stream) =>
        match checkRequest (x.connection link) last (service.epoch x.runtime) frame with
        | .ok request => some (frame, request, stream)
        | .error _ => none
      | _ => none
  | _ => none

/-- A session takes a request. A mutating one gets an ordinal, at which the process may stop. -/
def take (x : Exchange ρ) (i : ℕ) (link : Link) (frame : Frame) (request : RequestPayload)
    (stream : FrameStream) : Exchange ρ :=
  let mutating := request.operation.isMutating
  let ordinal := if mutating then x.mutation_counter + 1 else 0
  { x with
    mutation_counter := if mutating then x.mutation_counter + 1 else x.mutation_counter
    links := x.links.set i { link with
      stream
      phase := if crashesAt config .beforeCommit mutating ordinal then .ended .exited else link.phase
      serving := some { frame, request, ordinal } } }

/-- A request takes effect. -/
def takeEffect (x : Exchange ρ) (i : ℕ) (link : Link) (serving : Serving) : Exchange ρ :=
  let (response, runtime) := service.effect serving.request x.runtime
  { x with
    runtime
    links := x.links.set i { link with serving := some { serving with found := some response } }
    history := x.history ++ [⟨i, serving.request, response⟩] }

/-- The connection once its session has answered. -/
def answeredLink (link : Link) (serving : Serving) (response : ResponsePayload) : Link :=
  let mutating := serving.request.operation.isMutating
  if crashesAt config .afterCommitBeforeAck mutating serving.ordinal then
    { link with phase := .ended .exited }
  else
    let reply := responseFrame serving.frame response
    { link with
      to_client := if link.broken then link.to_client else link.to_client ++ encodeFrame reply
      sent := link.sent ++ [reply]
      serving := none
      phase :=
        if crashesAt config .afterAck mutating serving.ordinal then .ended .exited
        else if serving.request.operation = .shutdown then .ended .shutdown
        else .requests serving.frame.sequence }

/-- A session's thread goes on with the request that it serves. -/
def goOn (x : Exchange ρ) (i : ℕ) (link : Link) (serving : Serving) : Exchange ρ :=
  match serving.found with
  | none => x.takeEffect service i link serving
  | some found =>
    let response := service.look serving.request found x.runtime
    { x with links := x.links.set i (answeredLink config link serving response) }

/-- A session's thread goes on. -/
def serveStep (x : Exchange ρ) (i : ℕ) (link : Link) (read : Option ℕ) : Exchange ρ :=
  match link.serving with
  | some serving => x.goOn service config i link serving
  | none =>
    match x.nextRequest service link with
    | some (frame, request, stream) => x.take config i link frame request stream
    | none =>
      if Link.Blocks link.stream link.to_server link.broken read then x
      else x.servePass service config i link (Link.readOf link.to_server read)

/-- One event. Those that do not fit the state change nothing. -/
def step (x : Exchange ρ) : ExchangeEvent → Exchange ρ
  | .connect client =>
    if client.token = [] then x
    else { x with links := x.links ++
      [{ config := client, to_server := encodeFrame (Client.helloFrame client) }] }
  | .accept i =>
    match x.links[i]? with
    | none => x
    | some link =>
      if link.accepted || x.exited then x
      else { x with
        sockets := x.sockets ++ [i]
        links := x.links.set i { link with accepted := true } }
  | .serve i read =>
    match x.links[i]? with
    | none => x
    | some link =>
      if !link.accepted || x.exited || link.isStopped then x
      else x.serveStep service config i link read
  | .remove i =>
    match x.links[i]? with
    | none => x
    | some link => if link.isOver then { x with sockets := x.sockets.erase i } else x
  | .call i request written =>
    x.update i fun link => if link.client_phase = .ready then link.call request written else link
  | .receive i read =>
    x.update i fun link =>
      if Link.Blocks link.client.stream link.to_client
          (link.broken || x.exited || link.isOver) read then link
      else link.receive (Link.readOf link.to_client read)
  | .cut i to_server to_client => x.update i fun link => link.cut to_server to_client
  | .shutdown => { x with shutting_down := true }
  | .kill => { x with exited := true }

end Exchange

end Fcfn.Net
