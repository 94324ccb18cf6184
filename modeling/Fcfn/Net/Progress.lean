import Fcfn.Lib.Progress
import Fcfn.Net.Linearization

/-!
# Progress of calls

No call hangs. While a client waits, its own thread or that of its session can make a pass, however
little their reads return, and every such pass brings the call closer to its return: it moves bytes
on, takes a frame, or goes on with a request (`Exchange.serverWork`, `Exchange.clientWork`). -/

namespace Fcfn.Net

open Words Streams Runs

/-! ## The work that is left -/

namespace Link

/-- What is left for a session to do: its bytes, those under way twice, and the steps of the request
that it serves. -/
def serverWork (link : Link) : ℕ :=
  if link.isStopped then 0
  else 1 + 3 * (link.stream.pending.length + 2 * link.to_server.length) +
    match link.serving with
    | none => 0
    | some serving => if serving.found.isNone then 2 else 1

/-- What is left for a client to read. -/
def clientWork (link : Link) : ℕ := link.client.stream.pending.length + 2 * link.to_client.length

/-- A connection that breaks has no more work than before. -/
theorem cut_work (link : Link) (to_server to_client : ℕ) :
    (link.cut to_server to_client).serverWork ≤ link.serverWork ∧
      (link.cut to_server to_client).clientWork ≤ link.clientWork := by
  have hserver := List.length_take_le' to_server link.to_server
  have hclient := List.length_take_le' to_client link.to_client
  constructor
  · unfold serverWork
    show (if link.isStopped then _ else 1 + 3 * (link.stream.pending.length +
      2 * (link.to_server.take to_server).length) + _) ≤ _
    split
    · exact le_rfl
    · exact Nat.add_le_add_right (by omega) _
  · show link.client.stream.pending.length + 2 * (link.to_client.take to_client).length ≤ _
    unfold clientWork
    omega

/-! ## The passes of a client -/

/-- A pass of a client that waits returns from its call, or reads some bytes. -/
theorem receive_waiting {link : Link} (hwaiting : link.client_phase = .waiting) (chunk : Bytes) :
    link.results.length < (link.receive chunk).results.length ∨
      chunk ≠ [] ∧ ∃ client, client.stream.pending = link.client.stream.pending ++ chunk ∧
        link.receive chunk = { link with client, to_client := link.to_client.drop chunk.length } := by
  unfold receive
  dsimp only
  rw [hwaiting]
  unfold Client.callPass
  rcases hnext : link.client.stream.next with ⟨outcome, stream⟩
  cases outcome with
  | refused refusal => exact Or.inl (by simp)
  | complete frame => exact Or.inl (by simp)
  | needMore =>
    rcases link.client.readMore_cases chunk "coordinator closed the connection"
      "response exceeded the frame bound" with ⟨status, stream', hread, -⟩ | ⟨stream', hread, hpending, -⟩
    · rw [hread]
      exact Or.inl (by simp)
    · by_cases hnone : chunk = []
      · rw [hnone] at hread
        unfold Client.readMore at hread
        simp at hread
      · rw [hread]
        exact Or.inr ⟨hnone, _, hpending, by rw [if_pos rfl]; rfl⟩

/-- A pass of a client that waits returns from its call, or leaves less to read. -/
theorem receive_work {link : Link} (hwaiting : link.client_phase = .waiting) {chunk : Bytes}
    (hchunk : chunk <+: link.to_client) :
    link.results.length < (link.receive chunk).results.length ∨
      (link.receive chunk).client_phase = .waiting ∧ (link.receive chunk).results = link.results ∧
        (link.receive chunk).phase = link.phase ∧
        (link.receive chunk).accepted = link.accepted ∧
        (link.receive chunk).serverWork = link.serverWork ∧
        (link.receive chunk).clientWork < link.clientWork := by
  rcases receive_waiting hwaiting chunk with hreturned | ⟨hsome, client, hpending, hreceive⟩
  · exact Or.inl hreturned
  · rw [hreceive]
    refine Or.inr ⟨hwaiting, rfl, rfl, rfl, rfl, ?_⟩
    have hpos := List.length_pos_of_ne_nil hsome
    have hle := hchunk.length_le
    show client.stream.pending.length + 2 * (link.to_client.drop chunk.length).length < _
    unfold clientWork
    rw [hpending, List.length_append, List.length_drop]
    omega

end Link

/-! ## The passes of a session -/

namespace Exchange

variable {ρ : Type} {service : SharedService ρ} {config : ServerConfig} {start : ρ} {x : Exchange ρ}

/-- What a step of a session's thread leaves as it is, and that it leaves less to do. -/
structure Works (link link' : Link) : Prop where
  work : link'.serverWork < link.serverWork
  client_phase : link'.client_phase = link.client_phase
  results : link'.results = link.results
  accepted : link'.accepted = link.accepted
  alive : link'.phase ≠ .ended .exited

/-- A session that ends has nothing left to do. -/
theorem Link.serverWork_ended {link : Link} {why : SessionEnd} (h : link.phase = .ended why) :
    link.serverWork = 0 := by
  unfold Link.serverWork Link.isStopped
  rw [h]
  rfl

/-- A session that goes on has something left to do. -/
theorem Link.serverWork_pos {link : Link} (h : link.isStopped = false) : 0 < link.serverWork := by
  unfold Link.serverWork
  rw [h]
  simp only [Bool.false_eq_true, if_false]
  omega

/-- A session takes a request. -/
theorem take_works {link : Link} (hopen : link.isStopped = false) (hserving : link.serving = none)
    {last : Sequence} (hphase : link.phase = .requests last) {frame : Frame} {stream : FrameStream}
    (hnext : link.stream.next = (.complete frame, stream)) (request : RequestPayload)
    (ordinal : UInt64) :
    Works link { link with stream, serving := some { frame, request, ordinal } } := by
  obtain ⟨hdecode, hpending, -⟩ := FrameStream.next_complete hnext
  have hsize := decodeFrame_incremental.size_le hdecode
  have hpos := decodeFrame_incremental.size_pos frame
  refine ⟨?_, rfl, rfl, rfl, by rw [hphase]; simp⟩
  have hopen' : ({ link with stream, serving := some { frame, request, ordinal } } : Link).isStopped =
      false := hopen
  unfold Link.serverWork
  rw [hopen, hopen', hserving]
  dsimp only
  rw [hpending, List.length_drop]
  simp only [Bool.false_eq_true, if_false, Option.isNone_none, if_true]
  omega

/-- A request takes effect. -/
theorem effect_works {link : Link} (hopen : link.isStopped = false) {serving : Serving}
    (hserving : link.serving = some serving) (hfound : serving.found = none)
    (response : ResponsePayload) :
    Works link { link with serving := some { serving with found := some response } } := by
  have hopen' : ({ link with serving := some { serving with found := some response } } : Link).isStopped
      = false := hopen
  refine ⟨?_, rfl, rfl, rfl, fun hphase => ?_⟩
  · unfold Link.serverWork
    rw [hopen, hopen', hserving]
    dsimp only
    rw [hfound]
    simp only [Bool.false_eq_true, if_false, Option.isNone_none, Option.isNone_some, if_true]
    omega
  · unfold Link.isStopped at hopen
    rw [show link.phase = _ from hphase] at hopen
    exact absurd hopen (by simp)

/-- A session answers, where no crash point is configured. -/
theorem answer_works {link : Link} (hopen : link.isStopped = false) {serving : Serving}
    (hserving : link.serving = some serving) {found : ResponsePayload}
    (hfound : serving.found = some found) (hcrash : config.crash_point = none)
    (response : ResponsePayload) : Works link (answeredLink config link serving response) := by
  have hnever : ∀ (point : CrashPoint) (mutating : Bool) (ordinal : UInt64),
      crashesAt config point mutating ordinal = false := by
    intro point mutating ordinal
    unfold crashesAt
    rw [hcrash]
    simp
  have hwork : 1 + 3 * (link.stream.pending.length + 2 * link.to_server.length) < link.serverWork := by
    unfold Link.serverWork
    rw [hopen, hserving]
    dsimp only
    rw [hfound]
    simp
  unfold answeredLink
  simp only [hnever, Bool.false_eq_true, if_false]
  by_cases hshutdown : serving.request.operation = .shutdown
  · simp only [hshutdown, if_true]
    refine ⟨?_, rfl, rfl, rfl, by simp⟩
    rw [Link.serverWork_ended rfl]
    omega
  · simp only [hshutdown, if_false]
    refine ⟨?_, rfl, rfl, rfl, by simp⟩
    unfold Link.serverWork
    exact hwork

/-- A session makes a pass that serves no request. -/
theorem pass_works {link : Link} (hopen : link.isStopped = false) (hserving : link.serving = none)
    (hnone : x.nextRequest service link = none) {chunk : Bytes} (hchunk : chunk <+: link.to_server) :
    Works link (x.servedLink link chunk (x.sessionPass service config link chunk)) := by
  have houtcome := @pass_outcome ρ service.toService config (x.connection link) (fun _ => rfl)
    (x.sessionState link chunk)
  unfold sessionPass
  generalize pass service.toService config (x.connection link) (x.sessionState link chunk) = after at *
  have hserves : ∀ {last : Sequence} {frame : Frame} {stream : FrameStream} {request : RequestPayload},
      link.phase = .requests last → (∃ n, (x.connection link).shutting_down n = false) →
      link.stream.next = (.complete frame, stream) →
      checkRequest (x.connection link) last (service.epoch x.runtime) frame = .ok request → False := by
    intro last frame stream request before running next check
    obtain ⟨n, hrunning⟩ := running
    have hsome := nextRequest_eq before hrunning next check
    rw [hnone] at hsome
    exact absurd hsome (by simp)
  cases houtcome with
  | waits chunk' rest phase sound some_bytes read pending runtime dispatched sent =>
    obtain ⟨hincoming, hleft⟩ := read
    obtain ⟨rfl, rfl⟩ := List.cons.inj hincoming
    have hpos := List.length_pos_of_ne_nil some_bytes
    have hle := hchunk.length_le
    have hopen' : (x.servedLink link chunk after).isStopped = false := by
      unfold Link.isStopped
      rw [show (x.servedLink link chunk after).phase = link.phase from phase]
      exact hopen
    refine ⟨?_, rfl, rfl, rfl, fun hends => ?_⟩
    · unfold Link.serverWork
      rw [hopen, hopen', hserving, show (x.servedLink link chunk after).serving = none from hserving]
      show (if false = true then _ else 1 + 3 * (after.stream.pending.length +
        2 * (after.incoming.flatten ++ link.to_server.drop chunk.length).length) + 0) < _
      rw [pending, hleft]
      show _ < 1 + 3 * (link.stream.pending.length + 2 * link.to_server.length) + 0
      simp only [Bool.false_eq_true, if_false, List.flatten_nil, List.nil_append, List.length_append,
        List.length_drop, sessionState]
      omega
    · unfold Link.isStopped at hopen
      rw [show link.phase = .ended .exited from phase.symm.trans hends] at hopen
      exact absurd hopen (by simp)
  | stops last frame stream request before running next check phase runtime dispatched sent =>
    exact (hserves before running next check).elim
  | serves last frame stream request before running next check runtime bytes dispatched sent phase =>
    exact (hserves before running next check).elim
  | admits frame stream before next phase runtime bytes dispatched sent =>
    obtain ⟨hdecode, hpending, -⟩ :=
      FrameStream.next_complete (show link.stream.next = (.complete frame, stream) from next)
    have hsize := decodeFrame_incremental.size_le hdecode
    have hpos := decodeFrame_incremental.size_pos frame
    obtain ⟨rest, hrest⟩ := hchunk
    have hto_server : (x.servedLink link chunk after).to_server = link.to_server := by
      show after.incoming.flatten ++ link.to_server.drop chunk.length = _
      rw [bytes.2, ← hrest, List.drop_left]
      simp [sessionState]
    have hopen' : (x.servedLink link chunk after).isStopped = false := by
      unfold Link.isStopped
      rw [show (x.servedLink link chunk after).phase = .requests 0 from phase]
    refine ⟨?_, rfl, rfl, rfl, fun hends => absurd (phase.symm.trans hends) (by simp)⟩
    unfold Link.serverWork
    rw [hopen, hopen', hserving, show (x.servedLink link chunk after).serving = none from hserving,
      hto_server, show (x.servedLink link chunk after).stream = stream from bytes.1, hpending,
      List.length_drop]
    simp only [Bool.false_eq_true, if_false]
    omega
  | ends why phase alive runtime dispatched sent =>
    refine ⟨?_, rfl, rfl, rfl, fun hends => ?_⟩
    · have hends : (x.servedLink link chunk after).phase = .ended why := phase
      rw [Link.serverWork_ended hends]
      exact Link.serverWork_pos hopen
    · obtain rfl : why = .exited := Phase.ended.inj (phase.symm.trans hends)
      unfold Link.isStopped at hopen
      rw [show link.phase = .ended .exited from alive rfl] at hopen
      exact absurd hopen (by simp)

/-! ## Moves and what comes between -/

/-- The passes of the two threads of a connection that no read holds up. A read asks for bytes. -/
def Moves (service : SharedService ρ) (i : ℕ) (x : Exchange ρ) : ExchangeEvent → Prop
  | .serve j read => j = i ∧ (∃ n, 0 < n ∧ read = some n) ∧ ∃ link, x.links[i]? = some link ∧
      link.accepted = true ∧ x.exited = false ∧ link.isStopped = false ∧
      (link.serving = none → x.nextRequest service link = none →
        ¬ Link.Blocks link.stream link.to_server link.broken read)
  | .receive j read => j = i ∧ (∃ n, 0 < n ∧ read = some n) ∧ ∃ link, x.links[i]? = some link ∧
      ¬ Link.Blocks link.client.stream link.to_client (link.broken || x.exited || link.isOver) read
  | _ => False

/-- Whatever is no pass of the two threads may come between. -/
def Foreign (i : ℕ) : ExchangeEvent → Prop
  | .serve j _ => j ≠ i
  | .receive j _ => j ≠ i
  | _ => True

/-- No session has stopped at a crash point, or gone on before its connection was accepted. -/
def Alive (x : Exchange ρ) : Prop :=
  ∀ link ∈ x.links, link.phase ≠ .ended .exited ∧ (link.accepted = false → link.phase = .handshake)

/-- A connection is set to one that has not stopped. -/
theorem Alive.set (h : x.Alive) {x' : Exchange ρ} {i : ℕ} {link' : Link}
    (hlinks : x'.links = x.links.set i link') (halive : link'.phase ≠ .ended .exited)
    (haccepted : link'.accepted = false → link'.phase = .handshake) : x'.Alive := by
  intro other hother
  rw [hlinks] at hother
  rcases List.mem_or_eq_of_mem_set hother with hold | rfl
  · exact h other hold
  · exact ⟨halive, haccepted⟩

/-- A connection is changed to one in the same phase. -/
theorem Alive.update (h : x.Alive) {f : Link → Link}
    (hf : ∀ link : Link, (f link).phase = link.phase ∧ (f link).accepted = link.accepted) (i : ℕ) :
    (x.update i f).Alive := by
  unfold Exchange.update
  split
  · exact h
  · rename_i link hlink
    obtain ⟨halive, haccepted⟩ := h link (List.mem_of_getElem? hlink)
    refine h.set rfl ((hf link).1 ▸ halive) fun hfresh => ?_
    rw [(hf link).1]
    exact haccepted ((hf link).2.symm.trans hfresh)

/-- A client's pass and its calls leave its session as it is. -/
theorem receive_phase (link : Link) (chunk : Bytes) :
    (link.receive chunk).phase = link.phase ∧ (link.receive chunk).accepted = link.accepted := by
  unfold Link.receive
  dsimp only
  cases link.client_phase with
  | ready => exact ⟨rfl, rfl⟩
  | refused status => exact ⟨rfl, rfl⟩
  | connecting =>
    rcases link.client.connectPass chunk with ⟨_ | _ | _, client⟩
    all_goals exact ⟨rfl, rfl⟩
  | waiting =>
    rcases link.client.callPass chunk with ⟨_ | _, client⟩
    all_goals exact ⟨rfl, rfl⟩

theorem call_phase (link : Link) (request : RequestPayload) (written : Option ℕ) :
    (link.call request written).phase = link.phase ∧
      (link.call request written).accepted = link.accepted := by
  obtain ⟨broken, to_server, phase, results, hcall, -⟩ := link.call_cases request written
  rw [hcall]
  exact ⟨rfl, rfl⟩

/-- A session's thread leaves less to do, where its pass is not held up. -/
theorem serveStep_works (service : SharedService ρ) (x : Exchange ρ)
    (hcrash : config.crash_point = none) (i : ℕ) {link : Link} (hopen : link.isStopped = false)
    (read : Option ℕ)
    (hreads : link.serving = none → x.nextRequest service link = none →
      ¬ Link.Blocks link.stream link.to_server link.broken read) :
    ∃ link', (x.serveStep service config i link read).links = x.links.set i link' ∧
      Works link link' := by
  unfold serveStep
  cases hserving : link.serving with
  | some serving =>
    dsimp only
    unfold goOn
    cases hfound : serving.found with
    | none => exact ⟨_, rfl, effect_works hopen hserving hfound _⟩
    | some found => exact ⟨_, rfl, answer_works hopen hserving hfound hcrash _⟩
  | none =>
    dsimp only
    cases hnext : x.nextRequest service link with
    | none =>
      dsimp only
      rw [if_neg (hreads hserving hnext)]
      exact ⟨_, rfl, pass_works hopen hserving hnext (Link.readOf_prefix _ _)⟩
    | some taken =>
      obtain ⟨frame, request, stream⟩ := taken
      obtain ⟨last, hrequests, -, hframe, -⟩ := nextRequest_eq_some hnext
      have hnever : ∀ ordinal : UInt64,
          crashesAt config .beforeCommit request.operation.isMutating ordinal = false := by
        intro ordinal
        unfold crashesAt
        rw [hcrash]
        simp
      refine ⟨_, ?_, take_works hopen hserving hrequests hframe request
        (if request.operation.isMutating then x.mutation_counter + 1 else 0)⟩
      show x.links.set i _ = _
      rw [hnever]
      rfl

/-- Without a crash point no session stops. -/
theorem step_alive (hcrash : config.crash_point = none) (h : x.Alive) (event : ExchangeEvent) :
    (x.step service config event).Alive := by
  cases event with
  | connect client =>
    unfold step
    dsimp only
    split
    · exact h
    · intro link hlink
      rcases List.mem_append.mp hlink with hold | hnew
      · exact h link hold
      · rw [List.mem_singleton.mp hnew]
        exact ⟨by simp, fun _ => rfl⟩
  | accept i =>
    unfold step
    dsimp only
    split
    · exact h
    rename_i link hlink
    split
    · exact h
    · exact h.set rfl (h link (List.mem_of_getElem? hlink)).1 fun hfresh => absurd hfresh (by simp)
  | serve i read =>
    unfold step
    dsimp only
    split
    · exact h
    rename_i link hlink
    split
    · exact h
    rename_i hopen
    simp only [Bool.or_eq_true, not_or, Bool.not_eq_true, Bool.not_eq_false'] at hopen
    by_cases hblocks : link.serving = none ∧ x.nextRequest service link = none ∧
        Link.Blocks link.stream link.to_server link.broken read
    · obtain ⟨hserving, hnext, hreads⟩ := hblocks
      unfold serveStep
      rw [hserving, hnext]
      dsimp only
      rwa [if_pos hreads]
    · obtain ⟨link', hlinks, hworks⟩ := serveStep_works service x hcrash i hopen.2 read
        fun hserving hnext hreads => hblocks ⟨hserving, hnext, hreads⟩
      refine h.set hlinks hworks.alive fun hfresh => ?_
      rw [hworks.accepted, hopen.1.1] at hfresh
      exact absurd hfresh (by simp)
  | remove i =>
    unfold step
    dsimp only
    split
    · exact h
    split
    · exact h
    · exact h
  | call i request written =>
    refine h.update (fun link => ?_) i
    split
    · exact call_phase link request written
    · exact ⟨rfl, rfl⟩
  | receive i read =>
    refine h.update (fun link => ?_) i
    split
    · exact ⟨rfl, rfl⟩
    · exact receive_phase link _
  | cut i to_server to_client =>
    exact h.update (f := fun link => link.cut to_server to_client) (fun _ => ⟨rfl, rfl⟩) i
  | shutdown => exact h
  | kill => exact h

theorem exec_alive (hcrash : config.crash_point = none) (h : x.Alive) (events : List ExchangeEvent) :
    (exec (step service config) x events).Alive := by
  induction events generalizing x with
  | nil => exact h
  | cons event events ih => exact ih (step_alive hcrash h event)

/-! ## A call that waits -/

/-- Changing a connection leaves the others as they are. -/
theorem update_links_ne {f : Link → Link} {i j : ℕ} (hne : j ≠ i) :
    (x.update j f).links[i]? = x.links[i]? := by
  unfold Exchange.update
  split
  · rfl
  · exact List.getElem?_set_ne hne

theorem update_links_self {f : Link → Link} {i : ℕ} {link : Link} (hlink : x.links[i]? = some link) :
    (x.update i f).links[i]? = some (f link) := by
  unfold Exchange.update
  rw [hlink]
  exact List.getElem?_set_self (List.getElem?_eq_some_iff.mp hlink).1

/-- A step of another session's thread leaves a connection as it is. -/
theorem serveStep_links_ne {i j : ℕ} (hne : j ≠ i) (link : Link) (read : Option ℕ) :
    (x.serveStep service config j link read).links[i]? = x.links[i]? := by
  unfold serveStep
  split
  · unfold goOn
    split
    · exact List.getElem?_set_ne hne
    · exact List.getElem?_set_ne hne
  split
  · exact List.getElem?_set_ne hne
  split
  · rfl
  · exact List.getElem?_set_ne hne

/-- What comes between leaves a connection whose client waits as it is, or breaks it. -/
theorem foreign_links {i : ℕ} {link : Link} (hlink : x.links[i]? = some link)
    (haccepted : link.accepted = true) (hwaiting : link.client_phase = .waiting)
    {event : ExchangeEvent} (hforeign : Foreign i event) :
    (x.step service config event).links[i]? = some link ∨
      ∃ to_server to_client, (x.step service config event).links[i]? =
        some (link.cut to_server to_client) := by
  cases event with
  | connect client =>
    refine Or.inl ?_
    unfold step
    dsimp only
    split
    · exact hlink
    · show (x.links ++ _)[i]? = _
      rw [List.getElem?_append_left (List.getElem?_eq_some_iff.mp hlink).1, hlink]
  | accept j =>
    refine Or.inl ?_
    unfold step
    dsimp only
    split
    · exact hlink
    rename_i other hother
    split
    · exact hlink
    rename_i hfresh
    by_cases hsame : j = i
    · subst hsame
      obtain rfl := Option.some.inj (hlink.symm.trans hother)
      rw [haccepted] at hfresh
      exact absurd rfl hfresh
    · show (x.links.set j _)[i]? = _
      rw [List.getElem?_set_ne hsame, hlink]
  | serve j read =>
    refine Or.inl ?_
    unfold step
    dsimp only
    split
    · exact hlink
    split
    · exact hlink
    · rw [serveStep_links_ne hforeign, hlink]
  | remove j =>
    refine Or.inl ?_
    unfold step
    dsimp only
    split
    · exact hlink
    split
    · exact hlink
    · exact hlink
  | call j request written =>
    refine Or.inl ?_
    show (x.update j _).links[i]? = _
    by_cases hsame : j = i
    · subst hsame
      rw [update_links_self hlink, if_neg (by rw [hwaiting]; simp)]
    · rw [update_links_ne hsame, hlink]
  | receive j read =>
    refine Or.inl ?_
    show (x.update j _).links[i]? = _
    rw [update_links_ne hforeign, hlink]
  | cut j to_server to_client =>
    show (x.update j _).links[i]? = _ ∨ ∃ a b, (x.update j _).links[i]? = _
    by_cases hsame : j = i
    · subst hsame
      exact Or.inr ⟨to_server, to_client, update_links_self hlink⟩
    · exact Or.inl (by rw [update_links_ne hsame, hlink])
  | shutdown => exact Or.inl hlink
  | kill => exact Or.inl hlink

/-- A client waits for the answer to its `n`-th call, from zero on, and nothing has gone wrong. -/
structure Waits (service : SharedService ρ) (start : ρ) (i n : ℕ) (x : Exchange ρ) : Prop where
  inv : x.Inv service start
  within : x.Within
  alive : x.Alive
  waits : ∃ link, x.links[i]? = some link ∧ link.accepted = true ∧ link.client_phase = .waiting ∧
    link.results.length = n

/-- The `n`-th call of a connection has returned, or an answer was too long for its frame. -/
def Settled (i n : ℕ) (x : Exchange ρ) : Prop := n < (x.results i).length ∨ ¬ x.Within

/-- What is settled stays settled. -/
theorem Settled.step {i n : ℕ} (h : x.Settled i n) (event : ExchangeEvent) :
    (x.step service config event).Settled i n := by
  have hgrows : Grows x (x.step service config event) := step_grows x event
  refine h.imp (fun hreturned => ?_) fun hnot hwithin => hnot (hwithin.of_grows hgrows)
  unfold results at hreturned ⊢
  cases hlink : x.links[i]? with
  | none =>
    rw [hlink] at hreturned
    exact absurd hreturned (Nat.not_lt_zero n)
  | some link =>
    obtain ⟨link', hlink', hextends⟩ := hgrows.links i link hlink
    rw [hlink] at hreturned
    rw [hlink']
    exact lt_of_lt_of_le hreturned hextends.results.length_le

/-- What is left to do on a connection. -/
def work (i : ℕ) (x : Exchange ρ) : ℕ ×ₗ ℕ :=
  match x.links[i]? with
  | none => toLex (0, 0)
  | some link => toLex (link.serverWork, link.clientWork)

theorem work_eq {i : ℕ} {link : Link} (hlink : x.links[i]? = some link) :
    x.work i = toLex (link.serverWork, link.clientWork) := by
  unfold work
  rw [hlink]

/-- What is left to do after a step that keeps the client waiting. -/
theorem Waits.of_link {i n : ℕ} (h : x.Waits service start i n) (hcrash : config.crash_point = none)
    (event : ExchangeEvent) {link' : Link}
    (hlink' : (x.step service config event).links[i]? = some link')
    (hkept : link'.accepted = true ∧ link'.client_phase = .waiting ∧ link'.results.length = n) :
    (x.step service config event).Settled i n ∨ (x.step service config event).Waits service start i n := by
  by_cases hwithin : (x.step service config event).Within
  · exact Or.inr ⟨step_inv h.inv event hwithin, hwithin, step_alive hcrash h.alive event, link', hlink',
      hkept⟩
  · exact Or.inl (Or.inr hwithin)

/-- Events that come between keep the client waiting, and leave no more to do. -/
theorem Waits.foreign {i n : ℕ} (h : x.Waits service start i n) (hcrash : config.crash_point = none)
    {event : ExchangeEvent} (hforeign : Foreign i event) :
    (x.step service config event).Settled i n ∨ (x.step service config event).Waits service start i n ∧
      (x.step service config event).work i ≤ x.work i := by
  obtain ⟨link, hlink, haccepted, hwaiting, hcount⟩ := h.waits
  rw [work_eq hlink]
  have hlinks : (x.step service config event).links[i]? = some link ∨ ∃ to_server to_client,
      (x.step service config event).links[i]? = some (link.cut to_server to_client) :=
    foreign_links hlink haccepted hwaiting hforeign
  rcases hlinks with hsame | ⟨to_server, to_client, hcut⟩
  · rw [work_eq hsame]
    exact (h.of_link hcrash event hsame ⟨haccepted, hwaiting, hcount⟩).imp_right fun hwaits =>
      ⟨hwaits, le_rfl⟩
  · rw [work_eq hcut]
    refine (h.of_link hcrash event hcut ⟨haccepted, hwaiting, hcount⟩).imp_right fun hwaits => ⟨hwaits, ?_⟩
    obtain ⟨hserver, hclient⟩ := link.cut_work to_server to_client
    rcases hserver.lt_or_eq with hlt | heq
    · exact (Prod.Lex.toLex_lt_toLex.mpr (Or.inl hlt)).le
    · exact Prod.Lex.toLex_le_toLex.mpr (Or.inr ⟨heq, hclient⟩)

/-- Every move settles the call or leaves less to do. -/
theorem Waits.move {i n : ℕ} (h : x.Waits service start i n) (hcrash : config.crash_point = none)
    {event : ExchangeEvent} (hmove : Moves service i x event) :
    (x.step service config event).Settled i n ∨ (x.step service config event).Waits service start i n ∧
      (x.step service config event).work i < x.work i := by
  obtain ⟨link, hlink, haccepted, hwaiting, hcount⟩ := h.waits
  rw [work_eq hlink]
  cases event with
  | serve j read =>
    obtain ⟨rfl, -, other, hother, -, hexited, hopen, hreads⟩ := hmove
    obtain rfl := Option.some.inj (hlink.symm.trans hother)
    obtain ⟨link', hlinks, hworks⟩ := serveStep_works service x hcrash j hopen read hreads
    have hstep : x.step service config (.serve j read) = x.serveStep service config j link read := by
      rw [step_serve hlink haccepted hexited, if_neg (by rw [hopen]; simp)]
    have hlink' : (x.step service config (.serve j read)).links[j]? = some link' := by
      rw [hstep, hlinks]
      exact List.getElem?_set_self (List.getElem?_eq_some_iff.mp hlink).1
    rw [work_eq hlink']
    refine (h.of_link hcrash _ hlink' ⟨hworks.accepted.trans haccepted,
      hworks.client_phase.trans hwaiting, by rw [hworks.results, hcount]⟩).imp_right fun hwaits =>
      ⟨hwaits, Prod.Lex.toLex_lt_toLex.mpr (Or.inl hworks.work)⟩
  | receive j read =>
    obtain ⟨rfl, -, other, hother, hreads⟩ := hmove
    obtain rfl := Option.some.inj (hlink.symm.trans hother)
    have hlink' : (x.step service config (.receive j read)).links[j]? =
        some (link.receive (Link.readOf link.to_client read)) := by
      show (x.update j _).links[j]? = _
      rw [update_links_self hlink, if_neg hreads]
    rcases Link.receive_work hwaiting (Link.readOf_prefix link.to_client read) with
      hreturned | ⟨hphase, hresults, -, hsame, hserver, hclient⟩
    · refine Or.inl (Or.inl ?_)
      unfold results
      rw [hlink']
      exact hcount ▸ hreturned
    · rw [work_eq hlink']
      exact (h.of_link hcrash _ hlink' ⟨hsame.trans haccepted, hphase, by rw [hresults, hcount]⟩).imp_right
        fun hwaits => ⟨hwaits, Prod.Lex.toLex_lt_toLex.mpr (Or.inr ⟨hserver, hclient⟩)⟩
  | connect client => exact hmove.elim
  | accept j => exact hmove.elim
  | remove j => exact hmove.elim
  | call j request written => exact hmove.elim
  | cut j to_server to_client => exact hmove.elim
  | shutdown => exact hmove.elim
  | kill => exact hmove.elim

/-- A read that waits for one byte finds none. -/
theorem under_way_nil {under_way : Bytes} (h : Link.readOf under_way (some 1) = []) : under_way = [] := by
  cases under_way with
  | nil => rfl
  | cons byte rest => exact absurd h (by simp [Link.readOf, kReadChunkBytes])

/-- While a client waits, its thread or its session's can make a pass: of all the bytes that were
written, some would be left otherwise. -/
theorem Waits.possible {i n : ℕ} (h : x.Waits service start i n) : ∃ event, Moves service i x event := by
  obtain ⟨link, hlink, haccepted, hwaiting, -⟩ := h.waits
  have hinv := h.inv.links i link hlink
  have hwithin := h.within link (List.mem_of_getElem? hlink)
  by_cases hclient : Link.Blocks link.client.stream link.to_client
      (link.broken || x.exited || link.isOver) (some 1)
  · obtain ⟨hmore, hend, -, hnone⟩ := hclient
    have hto_client := under_way_nil hnone
    simp only [Bool.or_eq_false_iff] at hend
    obtain ⟨⟨hbroken, hexited⟩, hover⟩ := hend
    have halive := (h.alive link (List.mem_of_getElem? hlink)).1
    have hopen : link.isStopped = false := by
      unfold Link.isOver at hover
      simpa [halive] using hover
    refine ⟨.serve i (some 1), rfl, ⟨1, Nat.one_pos, rfl⟩, link, hlink, haccepted, hexited, hopen,
      fun hserving _ hblocks => ?_⟩
    obtain ⟨hsession, -, -, hempty⟩ := hblocks
    have hto_server := under_way_nil hempty
    have hknows := hinv.knows
    unfold Link.Knows at hknows
    rw [hwaiting] at hknows
    obtain ⟨hphase, -, -, -, hwaits⟩ := hknows
    cases hcase : link.phase with
    | handshake => exact hphase hcase
    | ended why =>
      unfold Link.isStopped at hopen
      rw [hcase] at hopen
      exact absurd hopen (by simp)
    | requests last =>
      -- the session has taken all calls, and has answered them
      obtain ⟨-, hcarries⟩ := (Link.serves_requests hcase _).mp hinv.serves
      rw [hbroken, hto_server, Link.taken_none hserving] at hcarries
      have hdrained := hcarries.drained (fun frame hframe => hwithin.fit frame
        (List.mem_of_mem_drop hframe)) hsession
      rw [List.drop_eq_nil_iff, Link.asked, List.length_mapIdx] at hdrained
      have hwritten := hinv.written last hcase
      rw [Link.answered_none hserving] at hwritten
      -- and the client has taken all answers
      have hreceives := hinv.receives
      unfold Link.Receives Link.heard at hreceives
      rw [hbroken, hto_client, hwaiting] at hreceives
      rcases hreceives with hpoisoned | ⟨rest, hrest, htakes, hcount⟩
      · unfold FrameStream.next at hmore
        rw [if_pos hpoisoned] at hmore
        exact absurd hmore (by simp)
      · obtain rfl := htakes.drained (fun frame hframe => hwithin.sent frame (hrest.mem hframe)) hmore
        rw [List.length_nil] at hcount
        dsimp only at hcount
        omega
  · exact ⟨.receive i (some 1), rfl, ⟨1, Nat.one_pos, rfl⟩, link, hlink, hclient⟩

/-- A call that waits is bound to be settled. -/
theorem Waits.inevitable {i n : ℕ} (h : x.Waits service start i n) (hcrash : config.crash_point = none) :
    Progress.Inevitable (step service config) (Moves service i) (Foreign i) (Settled i n) x :=
  .of_measure (m := work i) (fun _ event hsettled => hsettled.step event)
    (fun _ _ hwaits hforeign => hwaits.foreign hcrash hforeign) (fun _ hwaits => Or.inr hwaits.possible)
    (fun _ _ hwaits hmove => hwaits.move hcrash hmove) h

end Exchange

/-! ## The coordinator -/

/-- No call hangs. In every run of a server without a crash point, whatever its clients have done and
wherever reads and connections have failed, a call for which a client waits is bound to return: until
then the client's thread or its session's can make a pass, whatever other connections do in between,
and finitely many such passes settle the call, however little each reads. -/
theorem calls_return (config : ServerConfig) (served : Served) (events : List ExchangeEvent) (i : ℕ)
    (link : Link) (hcrash : config.crash_point = none)
    (hwithin : (exec (Exchange.step sharedCoordinator config) (.initial served) events).Within)
    (hlink : (exec (Exchange.step sharedCoordinator config) (.initial served) events).links[i]? = some link)
    (hwaiting : link.client_phase = .waiting) :
    Progress.Inevitable (Exchange.step sharedCoordinator config) (Exchange.Moves sharedCoordinator i)
      (Exchange.Foreign i) (Exchange.Settled i link.results.length)
      (exec (Exchange.step sharedCoordinator config) (.initial served) events) := by
  have halive : (exec (Exchange.step sharedCoordinator config) (.initial served) events).Alive :=
    Exchange.exec_alive hcrash (show (Exchange.initial served).Alive from fun link hlink =>
      absurd hlink (by simp [Exchange.initial]))
    events
  have hinv := Exchange.exec_inv (Exchange.initial_inv served) hwithin
  have haccepted : link.accepted = true := by
    by_contra hfresh
    have hknows := (hinv.links i link hlink).knows
    unfold Link.Knows at hknows
    rw [hwaiting] at hknows
    exact hknows.1 ((halive link (List.mem_of_getElem? hlink)).2 (by simpa using hfresh))
  exact Exchange.Waits.inevitable
    ⟨hinv, hwithin, halive, link, hlink, haccepted, hwaiting, rfl⟩ hcrash

set_option maxRecDepth 8000 in
/-- Both clients of the sample wait, and the call of the first is bound to return. -/
theorem calls_return_first : Progress.Inevitable (Exchange.step sharedCoordinator Sample.config)
    (Exchange.Moves sharedCoordinator 0) (Exchange.Foreign 0) (Exchange.Settled 0 0)
    (exec (Exchange.step sharedCoordinator Sample.config) (.initial Sample.served)
      (Sample.exchangeEvents.take 15)) := by
  have hwithin := exchangeEvents_within
  rw [List.append_nil, ← List.take_append_drop 15 Sample.exchangeEvents, exec_append] at hwithin
  have hwaits : ((exec (Exchange.step sharedCoordinator Sample.config) (.initial Sample.served)
      (Sample.exchangeEvents.take 15)).links[0]?).map (fun link =>
        (link.client_phase, link.results.length)) = some (.waiting, 0) := by decide +kernel
  obtain ⟨link, hlink, hsame⟩ := Option.map_eq_some_iff.mp hwaits
  obtain ⟨hwaiting, hcount⟩ := Prod.mk.inj hsame
  have hreturns := calls_return Sample.config Sample.served (Sample.exchangeEvents.take 15) 0 link rfl
    (hwithin.of_grows (Exchange.exec_grows _ _)) hlink hwaiting
  rwa [hcount] at hreturns

end Fcfn.Net
