import Fcfn.Net.FrameStream
import Fcfn.Net.Payloads

/-!
# Sessions

`run_session` serves one connection: a handshake, then requests, each checked and dispatched before
the next is looked at. A pass of either of its loops is a function of the session's state (`pass`),
and the session is as many passes as the bytes can feed (`runSession`). The runtime and its dispatch
are a `Service`; the sessions that share it dispatch requests of their own between two passes.

`Expected` says which requests a byte string asks for, in terms of its frames alone. What a session
still owes (`owed`) is what the bytes it has not consumed ask for, and a pass moves the requests it
dispatches from what is owed to what was dispatched (`pass_owed`), so that a session that nothing
interrupts dispatches what its bytes ask for (`runSession_expected`). -/

namespace Fcfn.Net

open Words Streams

/-! ## The session -/

/-- What a session needs of the runtime it serves: the authority it advertises and the dispatch of a
request, which keeps the epoch. -/
structure Service (ρ : Type) where
  epoch : ρ → CoordinatorEpoch
  boot : ρ → BootIdentity
  dispatch : Operation → Bytes → ρ → ResponsePayload × ρ
  epoch_dispatch : ∀ operation arguments runtime,
    epoch (dispatch operation arguments runtime).2 = epoch runtime

/-- Where a configured crash point stops the process. -/
inductive CrashPoint
  | beforeCommit | afterCommitBeforeAck | afterAck
  deriving DecidableEq, Repr

structure ServerConfig where
  session_token : Bytes
  max_sessions : ℕ := kMaxSessions
  crash_point : Option CrashPoint := none
  /-- The ordinal of the mutating request at which the crash point triggers. -/
  crash_after : UInt64 := 0

/-- What surrounds one connection: the identity that the session counter gives it, the sessions in
the table, whether its acknowledgement reaches the socket, and, at each pass, whether the server is
shutting down and what the other sessions have dispatched. -/
structure Connection where
  session : SessionId
  open_sessions : ℕ := 0
  ack_written : Bool := true
  shutting_down : ℕ → Bool := fun _ => false
  others : ℕ → List RequestPayload := fun _ => []

/-- Why a session is over. -/
inductive SessionEnd
  /-- A read failed or found the end of the stream. -/
  | closed
  /-- The handshake was refused. -/
  | refused
  /-- A frame or a request was refused. -/
  | violation
  /-- A shutdown request was served. -/
  | shutdown
  | overflow | tableFull | ackFailed | shuttingDown | exited
  deriving DecidableEq, Repr

/-- Whether a session is over because of its surroundings: the stream's bound was exceeded, the
session was not admitted, or the server stopped. -/
def SessionEnd.isInterruption : SessionEnd → Bool
  | .overflow | .tableFull | .ackFailed | .shuttingDown | .exited => true
  | _ => false

/-- Where a session is. -/
inductive Phase
  | handshake
  | requests (last_sequence : Sequence)
  | ended (why : SessionEnd)
  deriving DecidableEq, Repr

/-- The variables of a session: `incoming` is what its reads will return, and `dispatched` and
`sent` what it has dispatched and written. -/
structure SessionState (ρ : Type) where
  runtime : ρ
  incoming : List Bytes
  stream : FrameStream := {}
  phase : Phase := .handshake
  dispatched : List RequestPayload := []
  sent : List Frame := []
  mutation_counter : UInt64 := 0
  passes : ℕ := 0

/-- The frame that refuses a handshake. -/
def refusalFrame (reason : String) : Frame :=
  { type := .helloAck, payload := encodeHelloAck { reason := bytesOf reason } }

/-- The frame that answers a request. -/
def responseFrame (request : Frame) (response : ResponsePayload) : Frame :=
  { type := .response, session := request.session, sequence := request.sequence,
    epoch := request.epoch, payload := encodeResponse response }

/-- The frame that reports an error. -/
def errorFrame (request : Frame) (code : StatusCode) (message : String) : Frame :=
  responseFrame request { code := code, message := bytesOf message }

namespace SessionState

variable {ρ : Type}

/-- End the session. -/
def finish (s : SessionState ρ) (why : SessionEnd) : SessionState ρ := { s with phase := .ended why }

/-- Write a frame. -/
def send (s : SessionState ρ) (frame : Frame) : SessionState ρ := { s with sent := s.sent ++ [frame] }

/-- Read once and feed what was read: a read of no bytes is the end of the stream. -/
def readMore (s : SessionState ρ) : SessionState ρ :=
  match s.incoming with
  | [] => s.finish .closed
  | [] :: _ => s.finish .closed
  | chunk :: rest =>
    match s.stream.feed chunk with
    | (true, stream) => { s with stream, incoming := rest }
    | (false, stream) => { s with stream, incoming := rest, phase := .ended .overflow }

end SessionState

section Passes

variable {ρ : Type} (service : Service ρ) (config : ServerConfig) (connection : Connection)

/-- Admit a session whose token was right. -/
def establish (s : SessionState ρ) : SessionState ρ :=
  if connection.open_sessions ≥ config.max_sessions then
    (s.send (refusalFrame "session table full")).finish .tableFull
  else if connection.ack_written then
    { s.send { type := .helloAck, payload := encodeHelloAck {
        session := connection.session
        epoch := service.epoch s.runtime
        boot := service.boot s.runtime
        accepted := true
        version := kVersionString } } with
      phase := .requests 0 }
  else s.finish .ackFailed

/-- A pass of the handshake loop. -/
def handshakePass (s : SessionState ρ) : SessionState ρ :=
  match s.stream.next with
  | (.needMore, _) => s.readMore
  | (.refused refusal, stream) =>
    ({ s with stream }.send (refusalFrame refusal.status.token)).finish .refused
  | (.complete frame, stream) =>
    let s := { s with stream }
    if frame.type ≠ .hello then (s.send (refusalFrame "expected hello")).finish .refused
    else
      match decodeHello frame.payload with
      | .error _ => s.finish .refused
      | .ok hello =>
        if hello.token ≠ config.session_token then
          (s.send (refusalFrame "unauthorized")).finish .refused
        else establish service config connection s

/-- The checks of a request, in their order: on its type, its session, its sequence, its epoch and
its payload. -/
def checkRequest (last_sequence : Sequence) (epoch : CoordinatorEpoch) (frame : Frame) :
    Result RequestPayload := do
  require (frame.type == .request) .protocolViolation "expected a request frame"
  require (frame.session == connection.session) .unauthorized "session identity mismatch"
  require (last_sequence < frame.sequence) .sequenceRegression "request sequence did not advance"
  require (frame.epoch == epoch) .staleGeneration "request carries a stale epoch"
  decodeRequest frame.payload

/-- Whether the process stops at a crash point. -/
def crashesAt (point : CrashPoint) (mutating : Bool) (ordinal : UInt64) : Bool :=
  mutating && config.crash_point == some point && ordinal == config.crash_after

/-- Dispatch a request and answer it. -/
def serve (s : SessionState ρ) (frame : Frame) (request : RequestPayload) : SessionState ρ :=
  let mutating := request.operation.isMutating
  let ordinal := if mutating then s.mutation_counter + 1 else 0
  let s := { s with
    mutation_counter := if mutating then s.mutation_counter + 1 else s.mutation_counter }
  if crashesAt config .beforeCommit mutating ordinal then s.finish .exited
  else
    let (response, runtime) := service.dispatch request.operation request.arguments s.runtime
    let s := { s with runtime, dispatched := s.dispatched ++ [request] }
    if crashesAt config .afterCommitBeforeAck mutating ordinal then s.finish .exited
    else
      let s := s.send (responseFrame frame response)
      if crashesAt config .afterAck mutating ordinal then s.finish .exited
      else if request.operation = .shutdown then s.finish .shutdown
      else { s with phase := .requests frame.sequence }

/-- A pass of the request loop. -/
def requestPass (last_sequence : Sequence) (s : SessionState ρ) : SessionState ρ :=
  if connection.shutting_down s.passes then s.finish .shuttingDown
  else
    match s.stream.next with
    | (.needMore, _) => s.readMore
    | (.refused refusal, stream) =>
      ({ s with stream }.send (errorFrame { session := connection.session, sequence := last_sequence }
        .protocolViolation refusal.status.token)).finish .violation
    | (.complete frame, stream) =>
      let s := { s with stream }
      match checkRequest connection last_sequence (service.epoch s.runtime) frame with
      | .error status => (s.send (errorFrame frame status.code status.message)).finish .violation
      | .ok request => serve service config s frame request

/-- What another session dispatches. -/
def dispatchOther (s : SessionState ρ) (request : RequestPayload) : SessionState ρ :=
  { s with
    runtime := (service.dispatch request.operation request.arguments s.runtime).2
    mutation_counter :=
      if request.operation.isMutating then s.mutation_counter + 1 else s.mutation_counter }

/-- One pass, after what the other sessions have dispatched. -/
def pass (s : SessionState ρ) : SessionState ρ :=
  let s := { (connection.others s.passes).foldl (dispatchOther service) s with
    passes := s.passes + 1 }
  match s.phase with
  | .ended _ => s
  | .handshake => handshakePass service config connection s
  | .requests last_sequence => requestPass service config connection last_sequence s

/-- A session over what its reads will return. Every pass consumes a chunk or a frame, or ends the
session. -/
def runSession (runtime : ρ) (incoming : List Bytes) : SessionState ρ :=
  (pass service config connection)^[incoming.length + incoming.flatten.length + 1]
    { runtime, incoming }

end Passes

/-! ## What a byte string asks for -/

/-- The longest part of a list, from its front on, that has a property. -/
structure IsLongestPart {α : Type} (P : List α → Prop) (part whole : List α) : Prop where
  front : part <+: whole
  holds : P part
  longest : ∀ other, other <+: whole → P other → other <+: part

/-- The frames are requests of a session under an epoch, their sequences ascend from one on, and
each asks for an operation. -/
structure ValidRequests (session : SessionId) (epoch : CoordinatorEpoch) (last_sequence : Sequence)
    (frames : List Frame) : Prop where
  request : ∀ frame ∈ frames, frame.type = .request
  session : ∀ frame ∈ frames, frame.session = session
  epoch : ∀ frame ∈ frames, frame.epoch = epoch
  advances : (last_sequence :: frames.map Frame.sequence).IsChain (· < ·)
  decodes : ∀ frame ∈ frames, ∃ request, decodeRequest frame.payload = .ok request

/-- The frame is a well-formed hello with the token. -/
def IsHello (token : Bytes) (frame : Frame) : Prop :=
  frame.type = .hello ∧ ∃ hello, decodeHello frame.payload = .ok hello ∧ hello.token = token

instance IsHello.instDecidable (token : Bytes) (frame : Frame) : Decidable (IsHello token frame) :=
  decidable_of_iff (frame.type = .hello ∧
    (decodeHello frame.payload).toOption.any fun hello => hello.token == token) (by
      unfold IsHello
      cases decodeHello frame.payload with
      | error status => simp [Except.toOption]
      | ok hello => simp [Except.toOption])

/-- The requests of some frames. -/
def requestsOf (frames : List Frame) : List RequestPayload :=
  frames.filterMap fun frame => (decodeRequest frame.payload).toOption

/-- The requests up to the first shutdown, and it. -/
def throughShutdown : List RequestPayload → List RequestPayload
  | [] => []
  | request :: rest => request :: if request.operation = .shutdown then [] else throughShutdown rest

/-- What the frames of a connection ask for: nothing without a hello first, and then the longest
part of valid requests, up to a shutdown. -/
def Expected (token : Bytes) (session : SessionId) (epoch : CoordinatorEpoch) :
    List Frame → List RequestPayload → Prop
  | [], requests => requests = []
  | first :: rest, requests =>
    (¬ IsHello token first ∧ requests = []) ∨
      IsHello token first ∧ ∃ valid, IsLongestPart (ValidRequests session epoch 0) valid rest ∧
        requests = throughShutdown (requestsOf valid)

/-- The bytes that reads return, up to the end of the stream. -/
def received (incoming : List Bytes) : Bytes := (incoming.takeWhile (· ≠ [])).flatten

/-! ## The longest part of valid requests -/

section Valid

variable {connection : Connection} {epoch : CoordinatorEpoch}

/-- A request passes its checks when it is valid after the sequence. -/
theorem checkRequest_eq_ok {last_sequence : Sequence} {frame : Frame} {request : RequestPayload} :
    checkRequest connection last_sequence epoch frame = .ok request ↔
      frame.type = .request ∧ frame.session = connection.session ∧
        last_sequence < frame.sequence ∧ frame.epoch = epoch ∧
        decodeRequest frame.payload = .ok request := by
  simp only [checkRequest, require_bind_eq_ok, beq_iff_eq, decide_eq_true_eq]

/-- The requests that pass their checks one after the other. -/
def validFrom (connection : Connection) (epoch : CoordinatorEpoch) :
    Sequence → List Frame → List Frame
  | _, [] => []
  | last_sequence, frame :: rest =>
    match checkRequest connection last_sequence epoch frame with
    | .error _ => []
    | .ok _ => frame :: validFrom connection epoch frame.sequence rest

/-- No frames are valid requests. -/
theorem ValidRequests.nil {session : SessionId} {last_sequence : Sequence} :
    ValidRequests session epoch last_sequence [] where
  request := by simp
  session := by simp
  epoch := by simp
  advances := by simp
  decodes := by simp

/-- A valid request goes before those that are valid after it. -/
theorem ValidRequests.cons {last_sequence : Sequence} {frame : Frame} {rest : List Frame}
    {request : RequestPayload}
    (hfirst : checkRequest connection last_sequence epoch frame = .ok request)
    (hrest : ValidRequests connection.session epoch frame.sequence rest) :
    ValidRequests connection.session epoch last_sequence (frame :: rest) := by
  obtain ⟨htype, hsession, hadvances, hepoch, hdecode⟩ := checkRequest_eq_ok.mp hfirst
  constructor
  · exact List.forall_mem_cons.mpr ⟨htype, hrest.request⟩
  · exact List.forall_mem_cons.mpr ⟨hsession, hrest.session⟩
  · exact List.forall_mem_cons.mpr ⟨hepoch, hrest.epoch⟩
  · exact List.isChain_cons_cons.mpr ⟨hadvances, hrest.advances⟩
  · exact List.forall_mem_cons.mpr ⟨⟨request, hdecode⟩, hrest.decodes⟩

/-- The first of valid requests passes its checks, and the others are valid after it. -/
theorem ValidRequests.uncons {last_sequence : Sequence} {frame : Frame} {rest : List Frame}
    (h : ValidRequests connection.session epoch last_sequence (frame :: rest)) :
    (∃ request, checkRequest connection last_sequence epoch frame = .ok request) ∧
      ValidRequests connection.session epoch frame.sequence rest := by
  obtain ⟨htype, htypes⟩ := List.forall_mem_cons.mp h.request
  obtain ⟨hsession, hsessions⟩ := List.forall_mem_cons.mp h.session
  obtain ⟨hepoch, hepochs⟩ := List.forall_mem_cons.mp h.epoch
  obtain ⟨hadvances, hchain⟩ := List.isChain_cons_cons.mp h.advances
  obtain ⟨⟨request, hdecode⟩, hdecodes⟩ := List.forall_mem_cons.mp h.decodes
  refine ⟨⟨request, ?_⟩, htypes, hsessions, hepochs, hchain, hdecodes⟩
  exact checkRequest_eq_ok.mpr ⟨htype, hsession, hadvances, hepoch, hdecode⟩

/-- Checking one request after the other finds the longest part of valid requests. -/
theorem validFrom_isLongestPart (last_sequence : Sequence) (frames : List Frame) :
    IsLongestPart (ValidRequests connection.session epoch last_sequence)
      (validFrom connection epoch last_sequence frames) frames := by
  -- over the frames: each is checked against the sequence of the one before
  induction frames generalizing last_sequence with
  | nil =>
    refine ⟨List.prefix_rfl, ValidRequests.nil, fun other hother _ => ?_⟩
    exact hother
  | cons frame rest ih =>
    unfold validFrom
    cases hcheck : checkRequest connection last_sequence epoch frame with
    | error status =>
      refine ⟨List.nil_prefix, ValidRequests.nil, fun other hother hvalid => ?_⟩
      cases other with
      | nil => exact List.prefix_rfl
      | cons first others =>
        obtain ⟨rfl, -⟩ := List.cons_prefix_cons.mp hother
        obtain ⟨⟨request, hok⟩, -⟩ := hvalid.uncons
        rw [hcheck] at hok
        exact absurd hok (by simp)
    | ok request =>
      obtain ⟨hfront, hholds, hlongest⟩ := ih frame.sequence
      refine ⟨?_, hholds.cons hcheck, fun other hother hvalid => ?_⟩
      · exact List.cons_prefix_cons.mpr ⟨rfl, hfront⟩
      · cases other with
        | nil => exact List.nil_prefix
        | cons first others =>
          obtain ⟨rfl, hothers⟩ := List.cons_prefix_cons.mp hother
          exact List.cons_prefix_cons.mpr ⟨rfl, hlongest others hothers hvalid.uncons.2⟩

end Valid

/-! ## What a session owes -/

section Owed

variable {ρ : Type} (service : Service ρ) (config : ServerConfig) (connection : Connection)

/-- What the frames of a connection ask for, checking one after the other. -/
def askedOf (epoch : CoordinatorEpoch) : List Frame → List RequestPayload
  | [] => []
  | first :: rest =>
    if IsHello config.session_token first then
      throughShutdown (requestsOf (validFrom connection epoch 0 rest))
    else []

/-- What frames ask for is as expected. -/
theorem expected_askedOf (epoch : CoordinatorEpoch) (frames : List Frame) :
    Expected config.session_token connection.session epoch frames
      (askedOf config connection epoch frames) := by
  cases frames with
  | nil => rfl
  | cons first rest =>
    by_cases hhello : IsHello config.session_token first
    · rw [askedOf, if_pos hhello]
      exact Or.inr ⟨hhello, _, validFrom_isLongestPart 0 rest, rfl⟩
    · rw [askedOf, if_neg hhello]
      exact Or.inl ⟨hhello, rfl⟩

/-- The requests that the bytes a session has not consumed ask for. -/
def owed (s : SessionState ρ) : List RequestPayload :=
  let frames := framesOf (s.stream.pending ++ received s.incoming)
  match s.phase with
  | .ended _ => []
  | .handshake => askedOf config connection (service.epoch s.runtime) frames
  | .requests last_sequence =>
    throughShutdown (requestsOf
      (validFrom connection (service.epoch s.runtime) last_sequence frames))

end Owed

/-- The session is over, or its stream is sound. -/
def SessionState.Sound {ρ : Type} (s : SessionState ρ) : Prop :=
  (∃ why, s.phase = .ended why) ∨ s.stream.poisoned = false

/-- Whether the session is over because of its surroundings. -/
def SessionState.isInterrupted {ρ : Type} (s : SessionState ρ) : Bool :=
  match s.phase with
  | .ended why => why.isInterruption
  | _ => false

/-- Unless the surroundings end the session, its stream stays sound and what was dispatched, with
what is owed, stays the same. -/
def Keeps {ρ : Type} (service : Service ρ) (config : ServerConfig) (connection : Connection)
    (s s' : SessionState ρ) : Prop :=
  s'.isInterrupted = false →
    s'.Sound ∧ s'.dispatched ++ owed service config connection s' =
      s.dispatched ++ owed service config connection s

section Step

variable {ρ : Type} {service : Service ρ} {config : ServerConfig} {connection : Connection}

/-- A session that is over owes nothing. -/
theorem owed_ended {s : SessionState ρ} {why : SessionEnd} (h : s.phase = .ended why) :
    owed service config connection s = [] := by
  unfold owed
  rw [h]

/-- What a session owes depends on its phase, on the epoch and on the bytes it has not consumed. -/
theorem owed_congr {s s' : SessionState ρ} (hphase : s'.phase = s.phase)
    (hepoch : service.epoch s'.runtime = service.epoch s.runtime)
    (hbytes : s'.stream.pending ++ received s'.incoming = s.stream.pending ++ received s.incoming) :
    owed service config connection s' = owed service config connection s := by
  unfold owed
  rw [hphase, hepoch, hbytes]

/-- What reading once can do. -/
theorem readMore_cases (s : SessionState ρ) :
    (received s.incoming = [] ∧ s.readMore = s.finish .closed) ∨
      s.readMore.phase = .ended .overflow ∨
      ∃ stream chunk rest, s.incoming = chunk :: rest ∧ s.readMore = { s with stream, incoming := rest } ∧
        stream.poisoned = false ∧ stream.pending = s.stream.pending ++ chunk ∧
        received s.incoming = chunk ++ received rest := by
  unfold SessionState.readMore
  split
  · rename_i hnone
    exact Or.inl ⟨by rw [hnone]; rfl, rfl⟩
  · rename_i rest hempty
    exact Or.inl ⟨by rw [hempty]; simp [received], rfl⟩
  · rename_i chunk rest hne hchunk
    split
    · rename_i stream hfeed
      obtain ⟨hpending, hsound⟩ := FrameStream.feed_ok hfeed
      refine Or.inr (Or.inr ⟨stream, chunk, rest, hchunk, rfl, hsound, hpending, ?_⟩)
      rw [hchunk, received, received, List.takeWhile_cons_of_pos (by simpa using hne),
        List.flatten_cons]
    · exact Or.inr (Or.inl rfl)

/-- A session that is interrupted need not keep anything. -/
theorem Keeps.of_interrupted {s s' : SessionState ρ} {why : SessionEnd}
    (hphase : s'.phase = .ended why) (hwhy : why.isInterruption = true) :
    Keeps service config connection s s' := by
  intro hend
  unfold SessionState.isInterrupted at hend
  rw [hphase] at hend
  exact absurd (hwhy.symm.trans hend) (by simp)

/-- A session that ends without dispatching anything, when nothing is owed. -/
theorem Keeps.of_ended {s s' : SessionState ρ} {why : SessionEnd} (hphase : s'.phase = .ended why)
    (hdispatched : s'.dispatched = s.dispatched)
    (howed : owed service config connection s = []) : Keeps service config connection s s' :=
  fun _ => ⟨Or.inl ⟨why, hphase⟩, by rw [owed_ended hphase, howed, hdispatched]⟩

/-- Reading once keeps what is owed. -/
theorem readMore_keeps {s : SessionState ρ} (hmore : decodeFrame s.stream.pending = .needMore) :
    Keeps service config connection s s.readMore := by
  rcases readMore_cases s with ⟨hnone, hclosed⟩ | hover | ⟨stream, chunk, rest, -, hread, hsound,
    hpending, hreceived⟩
  · rw [hclosed]
    refine Keeps.of_ended rfl rfl ?_
    have hframes : framesOf (s.stream.pending ++ received s.incoming) = [] := by
      rw [hnone, List.append_nil]
      exact items_of_needMore hmore
    unfold owed
    rw [hframes]
    cases hphase : s.phase with
    | ended why => rfl
    | handshake => rfl
    | requests last_sequence => rfl
  · exact Keeps.of_interrupted hover rfl
  · rw [hread]
    refine fun _ => ⟨Or.inr hsound, ?_⟩
    rw [owed_congr (s := s)]
    · rfl
    · rfl
    · show stream.pending ++ received rest = _
      rw [hpending, hreceived, List.append_assoc]

/-- The frames of a session that finds a frame: it, and those of the bytes that are left. -/
theorem framesOf_next {s : SessionState ρ} {stream : FrameStream} {frame : Frame}
    (h : s.stream.next = (.complete frame, stream)) :
    framesOf (s.stream.pending ++ received s.incoming) =
      frame :: framesOf (stream.pending ++ received s.incoming) := by
  obtain ⟨hdecode, hpending, -⟩ := FrameStream.next_complete h
  unfold framesOf
  rw [items_append_of_complete decodeFrame_incremental hdecode, hpending]

/-- The frames of a session whose next frame is refused: none. -/
theorem framesOf_refused {s : SessionState ρ} {stream : FrameStream} {refusal : Refusal}
    (hsound : s.stream.poisoned = false) (h : s.stream.next = (.refused refusal, stream)) :
    framesOf (s.stream.pending ++ received s.incoming) = [] :=
  items_append_of_refused decodeFrame_incremental (FrameStream.next_refused hsound h) _

/-- Admitting a session turns to what its requests ask for. -/
theorem establish_keeps {s s' : SessionState ρ} (hsound : s'.stream.poisoned = false)
    (hdispatched : s'.dispatched = s.dispatched)
    (howed : owed service config connection s = throughShutdown (requestsOf (validFrom connection
      (service.epoch s'.runtime) 0 (framesOf (s'.stream.pending ++ received s'.incoming))))) :
    Keeps service config connection s (establish service config connection s') := by
  unfold establish
  split
  · exact Keeps.of_interrupted rfl rfl
  split
  · refine fun _ => ⟨Or.inr hsound, ?_⟩
    rw [howed]
    exact congrArg (· ++ _) hdispatched
  · exact Keeps.of_interrupted rfl rfl

/-- A pass of the handshake keeps what is owed. -/
theorem handshakePass_keeps {s : SessionState ρ} (hphase : s.phase = .handshake)
    (hsound : s.stream.poisoned = false) :
    Keeps service config connection s (handshakePass service config connection s) := by
  have howed : owed service config connection s = askedOf config connection
      (service.epoch s.runtime) (framesOf (s.stream.pending ++ received s.incoming)) := by
    unfold owed
    rw [hphase]
  unfold handshakePass
  -- nothing is owed before a hello is accepted, so a session that ends here owes nothing
  split
  · rename_i stream hnext
    exact readMore_keeps (FrameStream.next_needMore hnext).2
  · rename_i refusal stream hnext
    rw [framesOf_refused hsound hnext] at howed
    exact Keeps.of_ended rfl rfl howed
  · rename_i frame stream hnext
    rw [framesOf_next hnext, askedOf] at howed
    dsimp only
    split
    · rename_i htype
      rw [if_neg fun hhello => htype hhello.1] at howed
      exact Keeps.of_ended rfl rfl howed
    rename_i htype
    split
    · rename_i status hdecode
      refine Keeps.of_ended rfl rfl ?_
      rw [howed, if_neg]
      rintro ⟨-, other, hok, -⟩
      rw [hdecode] at hok
      exact absurd hok (by simp)
    rename_i hello hdecode
    split
    · rename_i htoken
      refine Keeps.of_ended rfl rfl ?_
      rw [howed, if_neg]
      rintro ⟨-, other, hok, htok⟩
      rw [hdecode] at hok
      obtain rfl := Except.ok.inj hok
      exact htoken htok
    rename_i htoken
    have hhello : IsHello config.session_token frame :=
      ⟨not_not.mp htype, hello, hdecode, not_not.mp htoken⟩
    rw [if_pos hhello] at howed
    exact establish_keeps (FrameStream.next_complete hnext).2.2 rfl howed

variable (service config) in
/-- What serving a request does, unless the process stops: it dispatches the request, and goes on
after the request's sequence. -/
theorem serve_cases (s : SessionState ρ) (frame : Frame) (request : RequestPayload) :
    (∃ why, why.isInterruption = true ∧ (serve service config s frame request).phase = .ended why) ∨
      (serve service config s frame request).runtime =
          (service.dispatch request.operation request.arguments s.runtime).2 ∧
        (serve service config s frame request).incoming = s.incoming ∧
        (serve service config s frame request).stream = s.stream ∧
        (serve service config s frame request).dispatched = s.dispatched ++ [request] ∧
        (serve service config s frame request).phase =
          if request.operation = .shutdown then .ended .shutdown else .requests frame.sequence := by
  unfold serve
  dsimp only
  generalize (if request.operation.isMutating = true then s.mutation_counter + 1 else 0) = ordinal
  split
  · exact Or.inl ⟨.exited, rfl, rfl⟩
  split
  · exact Or.inl ⟨.exited, rfl, rfl⟩
  split
  · exact Or.inl ⟨.exited, rfl, rfl⟩
  by_cases hshutdown : request.operation = .shutdown
  · rw [if_pos hshutdown, if_pos hshutdown]
    exact Or.inr ⟨rfl, rfl, rfl, rfl, rfl⟩
  · rw [if_neg hshutdown, if_neg hshutdown]
    exact Or.inr ⟨rfl, rfl, rfl, rfl, rfl⟩

/-- Serving the request that is owed next keeps what is owed. -/
theorem serve_keeps {s s' : SessionState ρ} {frame : Frame} {request : RequestPayload}
    (hsound : s'.stream.poisoned = false) (hdispatched : s'.dispatched = s.dispatched)
    (howed : owed service config connection s = request ::
      if request.operation = .shutdown then [] else throughShutdown (requestsOf (validFrom connection
        (service.epoch s'.runtime) frame.sequence
        (framesOf (s'.stream.pending ++ received s'.incoming))))) :
    Keeps service config connection s (serve service config s' frame request) := by
  rcases serve_cases service config s' frame request with
    ⟨why, hwhy, hphase⟩ | ⟨hruntime, hincoming, hstream, hserved, hphase⟩
  · exact Keeps.of_interrupted hphase hwhy
  -- a request never changes the epoch, so what follows is checked as before
  have hepoch := service.epoch_dispatch request.operation request.arguments s'.runtime
  rw [← hruntime] at hepoch
  generalize serve service config s' frame request = s'' at *
  intro hend
  refine ⟨Or.inr (by rw [hstream, hsound]), ?_⟩
  have howed' : owed service config connection s'' =
      if request.operation = .shutdown then [] else throughShutdown (requestsOf (validFrom connection
        (service.epoch s'.runtime) frame.sequence
        (framesOf (s'.stream.pending ++ received s'.incoming)))) := by
    unfold owed
    rw [hphase, hepoch, hstream, hincoming]
    by_cases hshutdown : request.operation = .shutdown
    · rw [if_pos hshutdown, if_pos hshutdown]
    · rw [if_neg hshutdown, if_neg hshutdown]
  rw [hserved, hdispatched, howed, howed', List.append_assoc, List.singleton_append]

/-- A pass of the request loop keeps what is owed. -/
theorem requestPass_keeps {s : SessionState ρ} {last_sequence : Sequence}
    (hphase : s.phase = .requests last_sequence) (hsound : s.stream.poisoned = false) :
    Keeps service config connection s (requestPass service config connection last_sequence s) := by
  have howed : owed service config connection s = throughShutdown (requestsOf (validFrom connection
      (service.epoch s.runtime) last_sequence
      (framesOf (s.stream.pending ++ received s.incoming)))) := by
    unfold owed
    rw [hphase]
  unfold requestPass
  split
  · exact Keeps.of_interrupted rfl rfl
  split
  · rename_i stream hnext
    exact readMore_keeps (FrameStream.next_needMore hnext).2
  · rename_i refusal stream hnext
    rw [framesOf_refused hsound hnext] at howed
    exact Keeps.of_ended rfl rfl howed
  · rename_i frame stream hnext
    -- the frame is the first that is owed, if it passes the check
    rw [framesOf_next hnext, validFrom] at howed
    dsimp only
    split
    · rename_i status hcheck
      rw [hcheck] at howed
      exact Keeps.of_ended rfl rfl howed
    · rename_i request hcheck
      rw [hcheck] at howed
      obtain ⟨-, -, -, -, hdecode⟩ := checkRequest_eq_ok.mp hcheck
      refine serve_keeps (FrameStream.next_complete hnext).2.2 rfl ?_
      rw [howed]
      simp only [requestsOf, List.filterMap_cons, hdecode, Except.toOption, throughShutdown]

variable (service) in
/-- What the other sessions dispatch changes the runtime and the counter of mutations only. -/
theorem others_spec (requests : List RequestPayload) (s : SessionState ρ) :
    let s' := requests.foldl (dispatchOther service) s
    service.epoch s'.runtime = service.epoch s.runtime ∧ s'.incoming = s.incoming ∧
      s'.stream = s.stream ∧ s'.phase = s.phase ∧ s'.dispatched = s.dispatched := by
  induction requests generalizing s with
  | nil => exact ⟨rfl, rfl, rfl, rfl, rfl⟩
  | cons request rest ih =>
    obtain ⟨hepoch, hincoming, hstream, hphase, hdispatched⟩ := ih (dispatchOther service s request)
    refine ⟨hepoch.trans ?_, hincoming, hstream, hphase, hdispatched⟩
    exact service.epoch_dispatch request.operation request.arguments s.runtime

/-- A pass keeps what is owed. -/
theorem pass_keeps {s : SessionState ρ} (hsound : s.Sound) :
    Keeps service config connection s (pass service config connection s) := by
  obtain ⟨hepoch, hincoming, hstream, hphase, hdispatched⟩ :=
    others_spec service (connection.others s.passes) s
  unfold pass
  -- between two passes others dispatch, which leaves this session and the epoch
  generalize hmid : ({ (connection.others s.passes).foldl (dispatchOther service) s with
    passes := s.passes + 1 } : SessionState ρ) = mid
  have hmid' : mid.phase = s.phase ∧ mid.stream = s.stream ∧ mid.dispatched = s.dispatched ∧
      owed service config connection mid = owed service config connection s := by
    subst hmid
    refine ⟨hphase, hstream, hdispatched, owed_congr hphase hepoch ?_⟩
    show (List.foldl _ s _).stream.pending ++ received (List.foldl _ s _).incoming = _
    rw [hstream, hincoming]
  obtain ⟨hphase, hstream, hdispatched, howed⟩ := hmid'
  have hsound' : mid.Sound := by
    unfold SessionState.Sound
    rw [hphase, hstream]
    exact hsound
  unfold Keeps
  rw [← hdispatched, ← howed]
  dsimp only
  cases hcase : mid.phase with
  | ended why => exact fun _ => ⟨hsound', rfl⟩
  | handshake =>
    rcases hsound' with ⟨why, hended⟩ | hsound'
    · rw [hcase] at hended
      exact absurd hended (by simp)
    · exact handshakePass_keeps hcase hsound'
  | requests last_sequence =>
    rcases hsound' with ⟨why, hended⟩ | hsound'
    · rw [hcase] at hended
      exact absurd hended (by simp)
    · exact requestPass_keeps hcase hsound'

/-! ## A whole session -/

/-- A session that is over stays so. -/
theorem pass_ended {s : SessionState ρ} {why : SessionEnd} (h : s.phase = .ended why) :
    (pass service config connection s).phase = .ended why := by
  obtain ⟨-, -, -, hphase, -⟩ := others_spec service (connection.others s.passes) s
  rw [h] at hphase
  unfold pass
  dsimp only
  split
  · exact hphase
  · rename_i hother
    rw [hphase] at hother
    exact absurd hother (by simp)
  · rename_i last_sequence hother
    rw [hphase] at hother
    exact absurd hother (by simp)

/-- What is left to do: the reads, and the bytes that are not consumed. -/
def SessionState.work (s : SessionState ρ) : ℕ :=
  s.incoming.length + s.stream.pending.length + s.incoming.flatten.length

/-- The session is over, or there is less to do than there was. -/
def Advances (s s' : SessionState ρ) : Prop := (∃ why, s'.phase = .ended why) ∨ s'.work < s.work

/-- Reading takes a chunk, or ends the session. -/
theorem readMore_advances (s : SessionState ρ) : Advances s s.readMore := by
  rcases readMore_cases s with ⟨-, hclosed⟩ | hover | ⟨stream, chunk, rest, hincoming, hread, -,
    hpending, -⟩
  · rw [hclosed]
    exact Or.inl ⟨.closed, rfl⟩
  · exact Or.inl ⟨.overflow, hover⟩
  · refine Or.inr ?_
    rw [hread]
    unfold SessionState.work
    rw [hincoming]
    dsimp only
    rw [hpending, List.length_append, List.flatten_cons, List.length_append, List.length_cons]
    omega

/-- Taking a frame leaves less to do. -/
theorem work_next {s : SessionState ρ} {stream : FrameStream} {frame : Frame}
    (h : s.stream.next = (.complete frame, stream)) : { s with stream }.work < s.work := by
  obtain ⟨hdecode, hpending, -⟩ := FrameStream.next_complete h
  have hle := decodeFrame_incremental.size_le hdecode
  have hpos := decodeFrame_incremental.size_pos frame
  unfold SessionState.work
  dsimp only
  rw [hpending, List.length_drop]
  omega

variable (service config connection) in
/-- A pass takes a chunk or a frame, or ends the session. -/
theorem pass_advances (s : SessionState ρ) : Advances s (pass service config connection s) := by
  obtain ⟨-, hincoming, hstream, -, -⟩ :=
    others_spec service (connection.others s.passes) s
  unfold pass
  generalize hmid : ({ (connection.others s.passes).foldl (dispatchOther service) s with
    passes := s.passes + 1 } : SessionState ρ) = mid
  have hwork : mid.work = s.work := by
    subst hmid
    unfold SessionState.work
    show (List.foldl _ s _).incoming.length + (List.foldl _ s _).stream.pending.length +
      (List.foldl _ s _).incoming.flatten.length = _
    rw [hstream, hincoming]
  unfold Advances
  rw [← hwork]
  dsimp only
  split
  · rename_i why hended
    exact Or.inl ⟨why, hended⟩
  · unfold handshakePass
    split
    · exact readMore_advances mid
    · exact Or.inl ⟨.refused, rfl⟩
    · rename_i frame stream hnext
      -- a frame that is taken leaves fewer bytes pending
      have hless := work_next hnext
      dsimp only
      split
      · exact Or.inl ⟨.refused, rfl⟩
      split
      · exact Or.inl ⟨.refused, rfl⟩
      split
      · exact Or.inl ⟨.refused, rfl⟩
      unfold establish
      split
      · exact Or.inl ⟨.tableFull, rfl⟩
      split
      · exact Or.inr hless
      · exact Or.inl ⟨.ackFailed, rfl⟩
  · unfold requestPass
    split
    · exact Or.inl ⟨.shuttingDown, rfl⟩
    split
    · exact readMore_advances mid
    · exact Or.inl ⟨.violation, rfl⟩
    · rename_i frame stream hnext
      have hless := work_next hnext
      dsimp only
      split
      · exact Or.inl ⟨.violation, rfl⟩
      · rename_i request hcheck
        rcases serve_cases service config { mid with stream } frame request
          with ⟨why, -, hphase⟩ | ⟨-, hincoming, hstream, -, -⟩
        · exact Or.inl ⟨why, hphase⟩
        · refine Or.inr ?_
          unfold SessionState.work at hless ⊢
          rw [hincoming, hstream]
          exact hless

/-- As many passes as there is to do, and one, end the session. -/
theorem iterate_pass_ended {n : ℕ} {s : SessionState ρ} (h : s.work < n) :
    ∃ why, ((pass service config connection)^[n] s).phase = .ended why := by
  have hstays : ∀ (m : ℕ) (s' : SessionState ρ) (why : SessionEnd), s'.phase = .ended why →
      ((pass service config connection)^[m] s').phase = .ended why := by
    intro m
    induction m with
    | zero => exact fun _ _ hended => hended
    | succ m ih => exact fun s' why hended => ih _ _ (pass_ended hended)
  induction n generalizing s with
  | zero => omega
  | succ n ih =>
    rw [Function.iterate_succ_apply]
    rcases pass_advances service config connection s with
      ⟨why, hended⟩ | hless
    · exact ⟨why, hstays n _ why hended⟩
    · exact ih (by omega)

variable (service config connection) in
/-- A session ends, with what its reads return. -/
theorem runSession_ended (runtime : ρ) (incoming : List Bytes) :
    ∃ why, (runSession service config connection runtime incoming).phase = .ended why := by
  refine iterate_pass_ended ?_
  show incoming.length + 0 + incoming.flatten.length < incoming.length + incoming.flatten.length + 1
  omega

/-- A session that is interrupted stays so. -/
theorem pass_interrupted {s : SessionState ρ} (h : s.isInterrupted = true) :
    (pass service config connection s).isInterrupted = true := by
  unfold SessionState.isInterrupted at h ⊢
  split at h
  · rename_i why hended
    rw [pass_ended hended]
    exact h
  · exact absurd h (by simp)

/-- Passes keep what is owed. -/
theorem iterate_pass_keeps (n : ℕ) {s : SessionState ρ} (hsound : s.Sound) :
    Keeps service config connection s ((pass service config connection)^[n] s) := by
  induction n with
  | zero => exact fun _ => ⟨hsound, rfl⟩
  | succ n ih =>
    rw [Function.iterate_succ_apply']
    intro hend
    have hbefore : ((pass service config connection)^[n] s).isInterrupted = false := by
      by_contra hinterrupted
      rw [pass_interrupted (by simpa using hinterrupted)] at hend
      exact absurd hend (by simp)
    obtain ⟨hmid, howed⟩ := ih hbefore
    obtain ⟨hafter, hkept⟩ := pass_keeps hmid hend
    exact ⟨hafter, hkept.trans howed⟩

/-- A session that nothing interrupts dispatches what the bytes it received ask for. -/
theorem runSession_expected (runtime : ρ) (incoming : List Bytes)
    (hend : (runSession service config connection runtime incoming).isInterrupted = false) :
    Expected config.session_token connection.session (service.epoch runtime)
      (framesOf (received incoming))
      (runSession service config connection runtime incoming).dispatched := by
  obtain ⟨why, hended⟩ := runSession_ended service config connection runtime incoming
  have hkeeps := (iterate_pass_keeps _ (Or.inr rfl) hend).2
  have hasked : (runSession service config connection runtime incoming).dispatched =
      askedOf config connection (service.epoch runtime) (framesOf (received incoming)) := by
    rw [← List.append_nil (runSession service config connection runtime incoming).dispatched,
      ← @owed_ended ρ service config connection _ _ hended]
    exact hkeeps
  rw [hasked]
  exact expected_askedOf config connection (service.epoch runtime) _

end Step

end Fcfn.Net
