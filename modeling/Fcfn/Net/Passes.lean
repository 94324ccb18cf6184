import Fcfn.Net.Exchange

/-!
# Passes and bytes under way

What a pass of a session can do (`PassOutcome`), and what bytes under way to a stream are: the front
of the frames that were written and not taken (`Carries`). Reading moves bytes from under way to the
stream, taking a frame takes the first of the frames, and a connection that breaks loses an end of
the bytes. -/

namespace Fcfn.Net

open Words Codec Streams Runs

/-! ## What a pass of a session does -/

section Pass

variable {ρ : Type}

/-- Serve a request. -/
def Service.serve (service : Service ρ) (request : RequestPayload) (runtime : ρ) :
    ResponsePayload × ρ :=
  service.dispatch request.operation request.arguments runtime

/-- A frame with which a session refuses its client: the hello, the bytes, or a request. -/
inductive IsParting (connection : Connection) (epoch : CoordinatorEpoch) (s : SessionState ρ) :
    Frame → Prop
  | hello (reason : String) (phase : s.phase = .handshake)
      (short : (bytesOf reason).length ≤ kMaxStatusMessageLength) :
      IsParting connection epoch s (refusalFrame reason)
  | bytes (last : Sequence) (refusal : Refusal) (stream : FrameStream) (phase : s.phase = .requests last)
      (next : s.stream.next = (.refused refusal, stream)) :
      IsParting connection epoch s (errorFrame { session := connection.session, sequence := last }
        .protocolViolation refusal.status.token)
  | request (last : Sequence) (frame : Frame) (stream : FrameStream) (status : Status)
      (phase : s.phase = .requests last) (next : s.stream.next = (.complete frame, stream))
      (check : checkRequest connection last epoch frame = .error status) :
      IsParting connection epoch s (errorFrame frame status.code status.message)

/-- The frame that admits a session. -/
def admissionFrame (service : Service ρ) (connection : Connection) (runtime : ρ) : Frame :=
  { type := .helloAck, payload := encodeHelloAck {
      session := connection.session
      epoch := service.epoch runtime
      boot := service.boot runtime
      accepted := true
      version := kVersionString } }

/-- What a pass of a session can do: wait for more bytes, end the session, admit it, serve a request,
or stop before it does. -/
inductive PassOutcome (service : Service ρ) (connection : Connection) (s s' : SessionState ρ) : Prop
  | waits (chunk : Bytes) (rest : List Bytes) (phase : s'.phase = s.phase)
      (sound : s'.stream.poisoned = false) (some_bytes : chunk ≠ [])
      (read : s.incoming = chunk :: rest ∧ s'.incoming = rest)
      (pending : s'.stream.pending = s.stream.pending ++ chunk)
      (runtime : s'.runtime = s.runtime) (dispatched : s'.dispatched = s.dispatched)
      (sent : s'.sent = s.sent)
  | stops (last : Sequence) (frame : Frame) (stream : FrameStream) (request : RequestPayload)
      (before : s.phase = .requests last) (running : ∃ n, connection.shutting_down n = false)
      (next : s.stream.next = (.complete frame, stream))
      (check : checkRequest connection last (service.epoch s.runtime) frame = .ok request)
      (phase : s'.phase = .ended .exited) (runtime : s'.runtime = s.runtime)
      (dispatched : s'.dispatched = s.dispatched) (sent : s'.sent = s.sent)
  | ends (why : SessionEnd) (phase : s'.phase = .ended why)
      (alive : why = .exited → s.phase = .ended why) (runtime : s'.runtime = s.runtime)
      (dispatched : s'.dispatched = s.dispatched)
      (sent : ∃ parting, s'.sent = s.sent ++ parting ∧
        ∀ frame ∈ parting, IsParting connection (service.epoch s.runtime) s frame)
  | admits (frame : Frame) (stream : FrameStream) (before : s.phase = .handshake)
      (next : s.stream.next = (.complete frame, stream)) (phase : s'.phase = .requests 0)
      (runtime : s'.runtime = s.runtime) (bytes : s'.stream = stream ∧ s'.incoming = s.incoming)
      (dispatched : s'.dispatched = s.dispatched)
      (sent : s'.sent = s.sent ++ [admissionFrame service connection s.runtime])
  | serves (last : Sequence) (frame : Frame) (stream : FrameStream) (request : RequestPayload)
      (before : s.phase = .requests last) (running : ∃ n, connection.shutting_down n = false)
      (next : s.stream.next = (.complete frame, stream))
      (check : checkRequest connection last (service.epoch s.runtime) frame = .ok request)
      (runtime : s'.runtime = (service.serve request s.runtime).2)
      (bytes : s'.stream = stream ∧ s'.incoming = s.incoming)
      (dispatched : s'.dispatched = s.dispatched ++ [request])
      (sent : ∃ answers, s'.sent = s.sent ++ answers ∧
        answers <+: [responseFrame frame (service.serve request s.runtime).1])
      (phase : (∃ why, s'.phase = .ended why) ∨ s'.phase = .requests frame.sequence)

variable {service : Service ρ} {config : ServerConfig} {connection : Connection}

/-- A pass that ends the session without a word. -/
theorem PassOutcome.silent {s s' : SessionState ρ} {why : SessionEnd} (hphase : s'.phase = .ended why)
    (halive : why = .exited → s.phase = .ended why) (hruntime : s'.runtime = s.runtime)
    (hdispatched : s'.dispatched = s.dispatched)
    (hsent : s'.sent = s.sent) : PassOutcome service connection s s' :=
  .ends why hphase halive hruntime hdispatched ⟨[], by rw [hsent, List.append_nil], by simp⟩

/-- Reading once waits for more bytes, or ends the session. -/
theorem readMore_outcome (s : SessionState ρ) : PassOutcome service connection s s.readMore := by
  unfold SessionState.readMore
  split
  · exact .silent rfl (by simp) rfl rfl rfl
  · exact .silent rfl (by simp) rfl rfl rfl
  · rename_i chunk rest hsome hincoming
    split
    · rename_i stream hfeed
      obtain ⟨hpending, hsound⟩ := FrameStream.feed_ok hfeed
      exact .waits chunk rest rfl hsound hsome ⟨hincoming, rfl⟩ hpending rfl rfl rfl
    · exact .silent rfl (by simp) rfl rfl rfl

/-- A pass of the handshake. -/
theorem handshakePass_outcome {s : SessionState ρ} (h : s.phase = .handshake) :
    PassOutcome service connection s (handshakePass service config connection s) := by
  -- every refusal writes one frame, and the session is over
  have hrefuses : ∀ (stream : FrameStream) (reason : String),
      (bytesOf reason).length ≤ kMaxStatusMessageLength → PassOutcome service connection s
        (({ s with stream }.send (refusalFrame reason)).finish .refused) :=
    fun stream reason hshort => .ends .refused rfl (by simp) rfl rfl
      ⟨[refusalFrame reason], rfl, fun frame hframe => List.mem_singleton.mp hframe ▸
        .hello reason h hshort⟩
  unfold handshakePass
  split
  · exact readMore_outcome s
  · rename_i refusal stream _
    refine hrefuses stream _ ?_
    cases refusal.status <;> decide
  · rename_i frame stream hnext
    dsimp only
    split
    · exact hrefuses stream _ (by decide)
    split
    · exact .silent rfl (by simp) rfl rfl rfl
    split
    · exact hrefuses stream _ (by decide)
    unfold establish
    split
    · exact .ends .tableFull rfl (by simp) rfl rfl ⟨[refusalFrame "session table full"], rfl,
        fun frame hframe => List.mem_singleton.mp hframe ▸ .hello _ h (by decide)⟩
    split
    · exact .admits frame stream h hnext rfl rfl ⟨rfl, rfl⟩ rfl rfl
    · exact .silent rfl (by simp) rfl rfl rfl

/-- A pass of the request loop. -/
theorem requestPass_outcome {s : SessionState ρ} {last : Sequence} (h : s.phase = .requests last) :
    PassOutcome service connection s (requestPass service config connection last s) := by
  unfold requestPass
  split
  · exact .silent rfl (by simp) rfl rfl rfl
  rename_i hrunning
  have hrunning : ∃ n, connection.shutting_down n = false := ⟨s.passes, by simpa using hrunning⟩
  split
  · exact readMore_outcome s
  · rename_i refusal stream hnext
    exact .ends .violation rfl (by simp) rfl rfl ⟨_, rfl, fun frame hframe =>
      List.mem_singleton.mp hframe ▸ .bytes last refusal stream h hnext⟩
  · rename_i frame stream hnext
    dsimp only
    split
    · rename_i status hcheck
      exact .ends .violation rfl (by simp) rfl rfl ⟨_, rfl, fun frame' hframe =>
        List.mem_singleton.mp hframe ▸ .request last frame stream status h hnext hcheck⟩
    · rename_i request hcheck
      unfold serve
      dsimp only
      generalize (if request.operation.isMutating = true then s.mutation_counter + 1 else 0) = ordinal
      split
      · exact .stops last frame stream request h hrunning hnext hcheck rfl rfl rfl rfl
      split
      · exact .serves last frame stream request h hrunning hnext hcheck rfl ⟨rfl, rfl⟩ rfl
          ⟨[], (List.append_nil _).symm, List.nil_prefix⟩ (Or.inl ⟨_, rfl⟩)
      split
      · exact .serves last frame stream request h hrunning hnext hcheck rfl ⟨rfl, rfl⟩ rfl
          ⟨_, rfl, List.prefix_rfl⟩ (Or.inl ⟨_, rfl⟩)
      split
      · exact .serves last frame stream request h hrunning hnext hcheck rfl ⟨rfl, rfl⟩ rfl
          ⟨_, rfl, List.prefix_rfl⟩ (Or.inl ⟨_, rfl⟩)
      · exact .serves last frame stream request h hrunning hnext hcheck rfl ⟨rfl, rfl⟩ rfl
          ⟨_, rfl, List.prefix_rfl⟩ (Or.inr rfl)

/-- How many passes there were does not matter. -/
theorem PassOutcome.of_passes {s s' : SessionState ρ} {n : ℕ}
    (h : PassOutcome service connection { s with passes := n } s') :
    PassOutcome service connection s s' := by
  cases h with
  | waits chunk rest phase sound some_bytes read pending runtime dispatched sent =>
    exact .waits chunk rest phase sound some_bytes read pending runtime dispatched sent
  | stops last frame stream request before running next check phase runtime dispatched sent =>
    exact .stops last frame stream request before running next check phase runtime dispatched sent
  | ends why phase alive runtime dispatched sent =>
    obtain ⟨parting, hsent, hparting⟩ := sent
    refine .ends why phase alive runtime dispatched ⟨parting, hsent, fun frame hframe => ?_⟩
    cases hparting frame hframe with
    | hello reason before short => exact .hello reason before short
    | bytes last refusal stream before next => exact .bytes last refusal stream before next
    | request last frame stream status before next check =>
      exact .request last frame stream status before next check
  | admits frame stream before next phase runtime bytes dispatched sent =>
    exact .admits frame stream before next phase runtime bytes dispatched sent
  | serves last frame stream request before running next check runtime bytes dispatched sent phase =>
    exact .serves last frame stream request before running next check runtime bytes dispatched sent
      phase

/-- A pass during which no other session dispatches. -/
theorem pass_outcome (hothers : ∀ n, connection.others n = []) (s : SessionState ρ) :
    PassOutcome service connection s (pass service config connection s) := by
  unfold pass
  rw [hothers, List.foldl_nil]
  dsimp only
  split
  · rename_i why hphase
    exact .silent hphase (fun _ => hphase) rfl rfl rfl
  · rename_i hphase
    refine PassOutcome.of_passes (n := s.passes + 1) ?_
    exact handshakePass_outcome hphase
  · rename_i last hphase
    refine PassOutcome.of_passes (n := s.passes + 1) ?_
    exact requestPass_outcome hphase

/-- A pass over a request that passes its checks serves it. -/
theorem requestPass_serve {service : Service ρ} {connection : Connection} {s : SessionState ρ}
    {last : Sequence} {frame : Frame} {request : RequestPayload} {stream : FrameStream}
    (hrunning : connection.shutting_down s.passes = false)
    (hnext : s.stream.next = (.complete frame, stream))
    (hcheck : checkRequest connection last (service.epoch s.runtime) frame = .ok request) :
    requestPass service config connection last s = serve service config { s with stream } frame request := by
  unfold requestPass
  rw [hrunning, hnext]
  simp only [Bool.false_eq_true, if_false, hcheck]

end Pass

/-! ## The steps of a session -/

section Steps

variable {ρ : Type} {service : SharedService ρ} {config : ServerConfig}

/-- The request that a session comes to serve passed its checks. -/
theorem Exchange.nextRequest_eq_some {x : Exchange ρ} {link : Link} {frame : Frame}
    {request : RequestPayload} {stream : FrameStream}
    (h : x.nextRequest service link = some (frame, request, stream)) :
    ∃ last, link.phase = .requests last ∧ x.shutting_down = false ∧
      link.stream.next = (.complete frame, stream) ∧
      checkRequest (x.connection link) last (service.epoch x.runtime) frame = .ok request := by
  unfold nextRequest at h
  split at h
  · rename_i last hphase
    split at h
    · exact absurd h (by simp)
    rename_i hrunning
    split at h
    · rename_i frame' stream' hnext
      split at h
      · rename_i request' hcheck
        simp only [Option.some.injEq, Prod.mk.injEq] at h
        obtain ⟨rfl, rfl, rfl⟩ := h
        exact ⟨last, hphase, by simpa using hrunning, hnext, hcheck⟩
      · exact absurd h (by simp)
    · exact absurd h (by simp)
  · exact absurd h (by simp)

/-- A request that passes its checks is served. -/
theorem Exchange.nextRequest_eq {x : Exchange ρ} {link : Link} {last : Sequence} {frame : Frame}
    {request : RequestPayload} {stream : FrameStream} (hphase : link.phase = .requests last)
    (hrunning : x.shutting_down = false) (hnext : link.stream.next = (.complete frame, stream))
    (hcheck : checkRequest (x.connection link) last (service.epoch x.runtime) frame = .ok request) :
    x.nextRequest service link = some (frame, request, stream) := by
  unfold nextRequest
  rw [hphase, hrunning, hnext]
  dsimp only
  rw [hcheck]
  rfl

/-- A session's thread goes on with the connection that it serves. -/
theorem Exchange.step_serve {x : Exchange ρ} {i : ℕ} {link : Link} (hlink : x.links[i]? = some link)
    (haccepted : link.accepted = true) (hexited : x.exited = false) (read : Option ℕ) :
    x.step service config (.serve i read) =
      if link.isStopped then x else x.serveStep service config i link read := by
  unfold step
  dsimp only
  rw [hlink]
  dsimp only
  rw [haccepted, hexited]
  rfl

/-- A request that was taken takes effect and is answered. -/
theorem Exchange.serve_request (service : SharedService ρ) (config : ServerConfig) {x : Exchange ρ}
    {i : ℕ} {link : Link} (hlink : x.links[i]? = some link)
    (haccepted : link.accepted = true) (hexited : x.exited = false) (hopen : link.isStopped = false)
    {serving : Serving} (hserving : link.serving = some serving) (hfound : serving.found = none)
    (read read' : Option ℕ) :
    let x' := exec (step service config) x [.serve i read, .serve i read']
    let found := { serving with found := some (service.effect serving.request x.runtime).1 }
    x'.runtime = (service.serve serving.request x.runtime).2 ∧
      x'.mutation_counter = x.mutation_counter ∧
      x'.links[i]? = some (answeredLink config { link with serving := some found } found
        (service.serve serving.request x.runtime).1) := by
  intro x' found
  have hlt := (List.getElem?_eq_some_iff.mp hlink).1
  have hserve : service.serve serving.request x.runtime =
      (service.look serving.request (service.effect serving.request x.runtime).1
        (service.effect serving.request x.runtime).2, (service.effect serving.request x.runtime).2) :=
    service.dispatch_eq serving.request x.runtime
  have heffect : x.step service config (.serve i read) = x.takeEffect service i link serving := by
    rw [step_serve hlink haccepted hexited, hopen, if_neg (by simp), serveStep, hserving]
    dsimp only
    rw [goOn, hfound]
  have hlink' : (x.takeEffect service i link serving).links[i]? =
      some { link with serving := some found } := List.getElem?_set_self hlt
  have hanswer : x' = (x.takeEffect service i link serving).goOn service config i
      { link with serving := some found } found := by
    show (x.step service config (.serve i read)).step service config (.serve i read') = _
    rw [heffect, step_serve hlink' haccepted hexited, if_neg, serveStep]
    show ¬ link.isStopped = true
    rw [hopen]
    simp
  rw [hanswer, hserve]
  exact ⟨rfl, rfl, List.getElem?_set_self (by rwa [takeEffect, List.length_set])⟩

/-- A session that no other comes between makes the pass of `run_session` over a request in three
steps, or in fewer where it stops. -/
theorem Exchange.serve_pass {x : Exchange ρ} {i : ℕ} {link : Link} (hlink : x.links[i]? = some link)
    (haccepted : link.accepted = true) (hexited : x.exited = false) (hserving : link.serving = none)
    {frame : Frame} {request : RequestPayload} {stream : FrameStream}
    (hnext : x.nextRequest service link = some (frame, request, stream))
    (read read' read'' : Option ℕ) :
    let after := x.sessionPass service config link []
    let x' := exec (step service config) x [.serve i read, .serve i read', .serve i read'']
    x'.runtime = after.runtime ∧ x'.mutation_counter = after.mutation_counter ∧
      ∃ link', x'.links[i]? = some link' ∧ link'.phase = after.phase ∧ link'.stream = after.stream ∧
        link'.sent = link.sent ++ after.sent := by
  intro after x'
  have hlt := (List.getElem?_eq_some_iff.mp hlink).1
  obtain ⟨last, hphase, hrunning, hframe, hcheck⟩ := nextRequest_eq_some hnext
  have hafter : after = Net.serve service.toService config
      { x.sessionState link [] with passes := 1, stream } frame request := by
    show pass service.toService config (x.connection link) (x.sessionState link []) = _
    have hpass : pass service.toService config (x.connection link) (x.sessionState link []) =
        requestPass service.toService config (x.connection link) last
          { x.sessionState link [] with passes := 1 } := by
      unfold pass
      simp only [connection, List.foldl_nil, sessionState, hphase]
    rw [hpass]
    exact requestPass_serve hrunning hframe hcheck
  have hopen : link.isStopped = false := by
    unfold Link.isStopped
    rw [hphase]
  have hdispatch := service.dispatch_eq request x.runtime
  -- the request is taken
  have htake : x.step service config (.serve i read) = x.take config i link frame request stream := by
    rw [step_serve hlink haccepted hexited, hopen, if_neg (by simp), serveStep]
    rw [hserving, hnext]
  have hx' : x' = exec (step service config) (x.take config i link frame request stream)
      [.serve i read', .serve i read''] := by
    show exec _ (x.step service config (.serve i read)) _ = _
    rw [htake]
  generalize hordinal : (if request.operation.isMutating = true then x.mutation_counter + 1 else 0) =
    ordinal at *
  have htaken : (x.take config i link frame request stream).links[i]? = some { link with
      stream
      phase := if crashesAt config .beforeCommit request.operation.isMutating ordinal then
        .ended .exited else link.phase
      serving := some { frame, request, ordinal } } := by
    rw [← hordinal]
    exact List.getElem?_set_self hlt
  have hcounter : (x.take config i link frame request stream).mutation_counter =
      if request.operation.isMutating then x.mutation_counter + 1 else x.mutation_counter := rfl
  rw [hx', hafter]
  unfold Net.serve
  dsimp only
  rw [sessionState]
  dsimp only
  rw [hordinal]
  by_cases hbefore : crashesAt config .beforeCommit request.operation.isMutating ordinal = true
  · -- the process stops before the request takes effect, and the thread with it
    rw [if_pos hbefore] at htaken
    have hstays : ∀ r : Option ℕ, (x.take config i link frame request stream).step service config
        (.serve i r) = x.take config i link frame request stream := by
      intro r
      rw [step_serve htaken haccepted hexited]
      rfl
    rw [exec_cons, exec_cons, exec_nil, hstays, hstays, if_pos hbefore]
    exact ⟨rfl, rfl, _, htaken, rfl, rfl, (List.append_nil _).symm⟩
  · rw [if_neg hbefore] at htaken
    obtain ⟨hruntime, hsame, hanswered⟩ := serve_request service config htaken haccepted hexited hopen
      rfl rfl read' read''
    rw [if_neg hbefore]
    -- what is left of the pass is the answer
    unfold answeredLink at hanswered
    dsimp only at hanswered
    split
    · rename_i hstops
      rw [if_pos hstops] at hanswered
      exact ⟨hruntime, hsame, _, hanswered, rfl, rfl, (List.append_nil _).symm⟩
    · rename_i hgoes
      rw [if_neg hgoes] at hanswered
      split
      · rename_i hack
        rw [if_pos hack] at hanswered
        exact ⟨hruntime, hsame, _, hanswered, rfl, rfl, rfl⟩
      · rename_i hack
        rw [if_neg hack] at hanswered
        split
        · rename_i hshutdown
          rw [if_pos hshutdown] at hanswered
          exact ⟨hruntime, hsame, _, hanswered, rfl, rfl, rfl⟩
        · rename_i hnot
          rw [if_neg hnot] at hanswered
          exact ⟨hruntime, hsame, _, hanswered, rfl, rfl, rfl⟩
end Steps

/-! ## Bytes under way -/

/-- The bytes that a stream has pending and those under way to it are the front of some frames, and
the whole of them while everything that was written gets through. -/
structure Carries (whole : Bool) (stream : FrameStream) (under_way : Bytes) (frames : List Frame) :
    Prop where
  sound : stream.poisoned = false
  front : stream.pending ++ under_way <+: frames.flatMap encodeFrame
  all : whole = true → stream.pending ++ under_way = frames.flatMap encodeFrame

/-- The frames fit the length field of their header. -/
def Fit (frames : List Frame) : Prop := ∀ frame ∈ frames, frame.payload.length < 2 ^ 32

namespace Carries

variable {whole : Bool} {stream stream' : FrameStream} {under_way under_way' : Bytes}
  {frames : List Frame}

/-- Frames that were written before anything is read. -/
theorem start (whole : Bool) (frames : List Frame) :
    Carries whole {} (frames.flatMap encodeFrame) frames :=
  ⟨rfl, List.prefix_rfl, fun _ => rfl⟩

/-- Bytes that were read are pending. -/
theorem read (h : Carries whole stream under_way frames) (hsound : stream'.poisoned = false)
    (hbytes : stream'.pending ++ under_way' = stream.pending ++ under_way) :
    Carries whole stream' under_way' frames :=
  ⟨hsound, hbytes ▸ h.front, fun hwhole => hbytes ▸ h.all hwhole⟩

/-- Where the stream finds a frame or refuses the bytes there is a frame, and the stream has found
what decoding this frame yields. -/
theorem exists_first (h : Carries whole stream under_way frames) (hfit : Fit frames)
    (hmore : decodeFrame stream.pending ≠ .needMore) :
    ∃ first rest, frames = first :: rest ∧ decodeFrame stream.pending =
      if first.payload.length > kMaxFramePayloadBytes then
        .refused ⟨.oversized, "declared payload length exceeds the wire bound"⟩
      else .complete first := by
  obtain ⟨more, hall⟩ := h.front
  cases frames with
  | nil =>
    have hnone : stream.pending = [] := by
      have hnil : stream.pending ++ under_way ++ more = [] := hall
      simp only [List.append_eq_nil_iff] at hnil
      exact hnil.1.1
    rw [hnone] at hmore
    exact absurd rfl hmore
  | cons first rest =>
    refine ⟨first, rest, rfl, ?_⟩
    rw [List.flatMap_cons, List.append_assoc] at hall
    rw [← decodeFrame_append hmore (under_way ++ more), hall,
      decodeFrame_header (hfit first (by simp))]

/-- A frame that the stream finds is the first one, and the others follow. -/
theorem next (h : Carries whole stream under_way frames) (hfit : Fit frames) {frame : Frame}
    (hnext : stream.next = (.complete frame, stream')) :
    ∃ rest, frames = frame :: rest ∧ frame.payload.length ≤ kMaxFramePayloadBytes ∧
      Carries whole stream' under_way rest := by
  obtain ⟨hdecode, hpending, hsound⟩ := FrameStream.next_complete hnext
  obtain ⟨first, rest, rfl, hfirst⟩ := h.exists_first hfit (by rw [hdecode]; simp)
  rw [hdecode] at hfirst
  split at hfirst
  · exact absurd hfirst (by simp)
  rename_i hbound
  obtain rfl := Found.complete.inj hfirst
  have hsize := decodeFrame_incremental.size_le hdecode
  have hdrop : stream'.pending ++ under_way = (stream.pending ++ under_way).drop frame.size := by
    rw [hpending, List.drop_append_of_le_length hsize]
  have hrest : (frame :: rest).flatMap encodeFrame =
      encodeFrame frame ++ rest.flatMap encodeFrame := List.flatMap_cons
  refine ⟨rest, rfl, not_lt.mp hbound, hsound, ?_, fun hwhole => ?_⟩
  · have hbehind : (encodeFrame frame ++ rest.flatMap encodeFrame).drop frame.size =
        rest.flatMap encodeFrame := List.drop_left' (length_encodeFrame frame)
    rw [hdrop, ← hbehind, ← hrest]
    exact h.front.drop _
  · rw [hdrop, h.all hwhole, hrest, List.drop_left' (length_encodeFrame frame)]

/-- A stream that asks for more has taken all frames, when everything that was written was read. -/
theorem drained (h : Carries true stream [] frames) (hfit : Fit frames)
    (hmore : stream.next.1 = .needMore) : frames = [] := by
  cases frames with
  | nil => rfl
  | cons first rest =>
    rw [FrameStream.next_fst h.sound, ← List.append_nil stream.pending, h.all rfl, List.flatMap_cons,
      decodeFrame_header (hfit first (by simp))] at hmore
    split at hmore
    · exact absurd hmore (by simp)
    · exact absurd hmore (by simp)

/-- Bytes that the stream refuses belong to a frame. -/
theorem refused (h : Carries whole stream under_way frames) (hfit : Fit frames) {refusal : Refusal}
    (hnext : stream.next = (.refused refusal, stream')) : frames ≠ [] := by
  have hdecode := FrameStream.next_refused h.sound hnext
  obtain ⟨first, rest, rfl, -⟩ := h.exists_first hfit (by rw [hdecode]; simp)
  simp

/-- Frames that are written get through. -/
theorem write (h : Carries true stream under_way frames) (more : List Frame) :
    Carries true stream (under_way ++ more.flatMap encodeFrame) (frames ++ more) := by
  have hall : stream.pending ++ (under_way ++ more.flatMap encodeFrame) =
      (frames ++ more).flatMap encodeFrame := by
    rw [← List.append_assoc, h.all rfl, List.flatMap_append]
  exact ⟨h.sound, hall ▸ List.prefix_rfl, fun _ => hall⟩

/-- Frames whose writing breaks off get through in part. -/
theorem write_part (h : Carries true stream under_way frames) (frame : Frame) (n : ℕ) :
    Carries false stream (under_way ++ (encodeFrame frame).take n) (frames ++ [frame]) := by
  refine ⟨h.sound, ?_, fun habsurd => absurd habsurd (by simp)⟩
  rw [← List.append_assoc, h.all rfl, List.flatMap_append, List.flatMap_singleton]
  exact List.prefix_append_right_inj _ |>.mpr (List.take_prefix _ _)

/-- Bytes under way may be lost, and frames that are written then do not get through. -/
theorem lose (h : Carries whole stream under_way frames) (n : ℕ) (more : List Frame) :
    Carries false stream (under_way.take n) (frames ++ more) := by
  refine ⟨h.sound, ?_, fun habsurd => absurd habsurd (by simp)⟩
  rw [List.flatMap_append]
  refine List.IsPrefix.trans ?_ (h.front.trans (List.prefix_append _ _))
  exact List.prefix_append_right_inj _ |>.mpr (List.take_prefix _ _)

/-- A connection may break with all bytes still under way. -/
theorem weaken (h : Carries whole stream under_way frames) : Carries false stream under_way frames :=
  ⟨h.sound, h.front, fun habsurd => absurd habsurd (by simp)⟩

/-- Frames that are written on a broken connection do not get through. -/
theorem lost (h : Carries false stream under_way frames) (more : List Frame) :
    Carries false stream under_way (frames ++ more) := by
  have hlose := h.lose under_way.length more
  rwa [List.take_length] at hlose

end Carries

/-- A stream is poisoned, or carries the frames that were sent to it but for the first few. -/
def Takes (whole : Bool) (stream : FrameStream) (under_way : Bytes) (sent : List Frame) (taken : ℕ) :
    Prop :=
  stream.poisoned = true ∨ ∃ rest, rest <:+ sent ∧ Carries whole stream under_way rest ∧
    sent.length ≤ rest.length + taken

namespace Takes

variable {whole : Bool} {under_way : Bytes} {sent : List Frame} {taken : ℕ}

/-- More frames may have been taken. -/
theorem mono {stream : FrameStream} {taken' : ℕ} (h : Takes whole stream under_way sent taken)
    (hle : taken ≤ taken') : Takes whole stream under_way sent taken' := by
  refine h.imp_right ?_
  rintro ⟨rest, hrest, hcarries, hcount⟩
  exact ⟨rest, hrest, hcarries, hcount.trans (Nat.add_le_add_left hle _)⟩

/-- A client reads once. -/
theorem readMore {c : Client} (h : Takes whole c.stream under_way sent taken)
    (hmore : c.stream.next.1 = .needMore) {chunk : Bytes} (hchunk : chunk <+: under_way)
    (closed exceeded : String) :
    Takes whole (c.readMore chunk closed exceeded).2.stream (under_way.drop chunk.length) sent taken := by
  obtain ⟨more, rfl⟩ := hchunk
  rw [List.drop_left]
  rcases c.readMore_cases chunk closed exceeded with
    ⟨status, stream, hread, ⟨rfl, rfl⟩ | hpoisoned⟩ | ⟨stream, hread, hpending, hsound⟩
  · rw [hread]
    exact h
  · rw [hread]
    exact Or.inl hpoisoned
  · rw [hread]
    rcases h with hpoisoned | ⟨rest, hrest, hcarries, hcount⟩
    · -- a poisoned stream never asks for more
      unfold FrameStream.next at hmore
      rw [if_pos hpoisoned] at hmore
      exact absurd hmore (by simp)
    · refine Or.inr ⟨rest, hrest, hcarries.read hsound ?_, hcount⟩
      rw [hpending, List.append_assoc]

/-- A client takes a frame that was sent to it. -/
theorem next {stream stream' : FrameStream} {frame : Frame}
    (h : Takes whole stream under_way sent taken) (hfit : Fit sent)
    (hnext : stream.next = (.complete frame, stream')) :
    frame ∈ sent ∧ Takes whole stream' under_way sent (taken + 1) := by
  rcases h with hpoisoned | ⟨rest, hrest, hcarries, hcount⟩
  · unfold FrameStream.next at hnext
    rw [if_pos hpoisoned] at hnext
    exact absurd hnext (by simp)
  · obtain ⟨others, rfl, -, hothers⟩ :=
      hcarries.next (fun other hother => hfit other (hrest.mem hother)) hnext
    refine ⟨hrest.mem (by simp), Or.inr ⟨others, (List.suffix_cons _ _).trans hrest, hothers, ?_⟩⟩
    rw [List.length_cons] at hcount
    omega

/-- The connection may break. -/
theorem weaken {stream : FrameStream} (h : Takes whole stream under_way sent taken) :
    Takes false stream under_way sent taken := by
  refine h.imp_right ?_
  rintro ⟨rest, hrest, hcarries, hcount⟩
  exact ⟨rest, hrest, hcarries.weaken, hcount⟩

/-- Frames that are written get through, unless the connection is broken. -/
theorem write {stream : FrameStream} (h : Takes whole stream under_way sent taken)
    (more : List Frame) :
    Takes whole stream (if whole then under_way ++ more.flatMap encodeFrame else under_way)
      (sent ++ more) taken := by
  refine h.imp_right ?_
  rintro ⟨rest, ⟨before, rfl⟩, hcarries, hcount⟩
  refine ⟨rest ++ more, ⟨before, by rw [List.append_assoc]⟩, ?_, ?_⟩
  · cases whole with
    | true => exact hcarries.write more
    | false => exact hcarries.lost more
  · simp only [List.length_append] at hcount ⊢
    omega

end Takes

end Fcfn.Net
