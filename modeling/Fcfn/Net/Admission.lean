import Fcfn.Lib.Runs
import Fcfn.Net.Session

/-!
# Admission

The connections of a server. `serve` registers a connection when it accepts it, its thread counts
the registered connections once the token has proved right, and the registration goes after the
session is over (`ServerState.step`). The count includes the connection itself and those whose
handshake is not over, so a server never has as many sessions open as its bound says
(`openSessions_lt`), and every refusal for a full table comes too early (`admission`). -/

namespace Fcfn.Net

open Words Streams

/-- Where a registered connection is. -/
inductive ConnectionPhase
  | handshaking
  /-- It was counted and admitted, and its acknowledgement is not written yet. -/
  | admitted
  | established
  /-- Its thread is done with it, and has not removed it yet. -/
  | over
  deriving DecidableEq, Repr

/-- A connection was admitted and is not over. -/
def ConnectionPhase.isActive : ConnectionPhase → Bool
  | .admitted | .established => true
  | .handshaking | .over => false

/-- What a handshake makes of what its stream found. -/
inductive Verdict
  | waiting | refused | tableFull | admitted
  deriving DecidableEq, Repr

/-- The checks of a handshake, when so many connections are registered. -/
def verdict (config : ServerConfig) (open_sessions : ℕ) : DecodeOutcome → Verdict
  | .needMore => .waiting
  | .refused _ => .refused
  | .complete frame =>
    if frame.type ≠ .hello then .refused
    else
      match decodeHello frame.payload with
      | .error _ => .refused
      | .ok hello =>
        if hello.token ≠ config.session_token then .refused
        else if open_sessions ≥ config.max_sessions then .tableFull
        else .admitted

/-- The registered connections, in the order of their acceptance. -/
structure ServerState where
  sockets : List ℕ := []
  phase : ℕ → ConnectionPhase := fun _ => .over
  accepted : ℕ := 0

/-- What happens to the connections of a server. -/
inductive ServerEvent
  | accept
  /-- The thread of a connection looks at what its stream found. -/
  | hello (connection : ℕ) (outcome : DecodeOutcome)
  /-- The acknowledgement of an admitted connection is written, or is not. -/
  | acknowledge (connection : ℕ) (written : Bool)
  /-- A handshake or a session ends for any other reason. -/
  | disconnect (connection : ℕ)
  /-- The thread of a connection removes it. -/
  | remove (connection : ℕ)

namespace ServerState

/-- A registered connection is in a phase. -/
def InPhase (s : ServerState) (connection : ℕ) (phase : ConnectionPhase) : Prop :=
  connection ∈ s.sockets ∧ s.phase connection = phase

instance InPhase.instDecidable (s : ServerState) (connection : ℕ) (phase : ConnectionPhase) :
    Decidable (s.InPhase connection phase) :=
  inferInstanceAs (Decidable (_ ∧ _))

/-- A connection enters a phase. -/
def enter (s : ServerState) (connection : ℕ) (phase : ConnectionPhase) : ServerState :=
  { s with phase := Function.update s.phase connection phase }

/-- The connections that completed their handshake and are still open. -/
def openSessions (s : ServerState) : List ℕ := s.sockets.filter (s.phase · = .established)

/-- One event. Those that do not fit the phase of their connection change nothing. -/
def step (config : ServerConfig) (s : ServerState) : ServerEvent → ServerState
  | .accept =>
    { sockets := s.sockets ++ [s.accepted]
      phase := Function.update s.phase s.accepted .handshaking
      accepted := s.accepted + 1 }
  | .hello connection outcome =>
    if s.InPhase connection .handshaking then
      match verdict config s.sockets.length outcome with
      | .waiting => s
      | .refused => s.enter connection .over
      | .tableFull => s.enter connection .over
      | .admitted => s.enter connection .admitted
    else s
  | .acknowledge connection written =>
    if s.InPhase connection .admitted then
      s.enter connection (if written then .established else .over)
    else s
  | .disconnect connection =>
    if s.InPhase connection .handshaking ∨ s.InPhase connection .established then
      s.enter connection .over
    else s
  | .remove connection =>
    if s.InPhase connection .over then { s with sockets := s.sockets.erase connection } else s

end ServerState

/-! ## The checks are those of a session -/

section Handshake

variable {ρ : Type} {service : Service ρ} {config : ServerConfig} {connection : Connection}

/-- A handshake finds the table full where the verdict says so. -/
theorem handshakePass_tableFull {s : SessionState ρ} (h : s.phase = .handshake) :
    (handshakePass service config connection s).phase = .ended .tableFull ↔
      verdict config connection.open_sessions s.stream.next.1 = .tableFull := by
  unfold handshakePass verdict
  rcases hnext : s.stream.next with ⟨outcome, stream⟩
  cases outcome with
  | needMore =>
    simp only [reduceCtorEq, iff_false]
    unfold SessionState.readMore
    split
    · simp [SessionState.finish]
    · simp [SessionState.finish]
    · split
      · simp [h]
      · simp
  | refused refusal => simp [SessionState.finish]
  | complete frame =>
    simp only
    split
    · simp [SessionState.finish]
    cases decodeHello frame.payload with
    | error status => simp [SessionState.finish]
    | ok hello =>
      simp only
      split
      · simp [SessionState.finish]
      unfold establish
      split
      · simp [SessionState.finish]
      · split <;> simp [SessionState.finish]

/-- The verdict on a hello with the right token. -/
theorem verdict_hello {frame : Frame} (h : IsHello config.session_token frame) (open_sessions : ℕ) :
    verdict config open_sessions (.complete frame) =
      if open_sessions ≥ config.max_sessions then .tableFull else .admitted := by
  obtain ⟨htype, hello, hdecode, htoken⟩ := h
  simp only [verdict, hdecode, htype, htoken, ne_eq, not_true_eq_false, if_false]

/-- Only a hello with the right token is refused for a full table or admitted. -/
theorem verdict_eq {open_sessions : ℕ} {outcome : DecodeOutcome}
    (h : verdict config open_sessions outcome = .tableFull ∨
      verdict config open_sessions outcome = .admitted) :
    ∃ frame, outcome = .complete frame ∧ IsHello config.session_token frame := by
  cases outcome with
  | needMore => simp [verdict] at h
  | refused refusal => simp [verdict] at h
  | complete frame =>
    refine ⟨frame, rfl, ?_⟩
    simp only [verdict] at h
    by_cases htype : frame.type = .hello
    · simp only [htype, ne_eq, not_true_eq_false, if_false] at h
      cases hdecode : decodeHello frame.payload with
      | error status => simp [hdecode] at h
      | ok hello =>
        simp only [hdecode] at h
        by_cases htoken : hello.token = config.session_token
        · exact ⟨htype, hello, hdecode, htoken⟩
        · simp [htoken] at h
    · simp [htype] at h

end Handshake

/-! ## How many sessions are open -/

namespace ServerState

variable {config : ServerConfig} {s : ServerState}

/-- How many connections were admitted and are not over. -/
def active (s : ServerState) : ℕ := s.sockets.countP fun connection => (s.phase connection).isActive

/-- Every open session was admitted. -/
theorem openSessions_le (s : ServerState) : s.openSessions.length ≤ s.active := by
  rw [openSessions, ← List.countP_eq_length_filter]
  refine List.countP_mono_left fun connection _ h => ?_
  rw [of_decide_eq_true h]
  rfl

/-- Connections that no change of phase makes active are counted no higher. -/
theorem countP_update_le (sockets : List ℕ) (phase : ℕ → ConnectionPhase) {connection : ℕ}
    {next : ConnectionPhase} (h : next.isActive → (phase connection).isActive) :
    sockets.countP (fun other => (Function.update phase connection next other).isActive) ≤
      sockets.countP fun other => (phase other).isActive := by
  refine List.countP_mono_left fun other _ hactive => ?_
  by_cases hsame : other = connection
  · subst hsame
    rw [Function.update_self] at hactive
    exact h hactive
  · rwa [Function.update_of_ne hsame] at hactive

/-- A server that has room for one session keeps a place free, whatever happens. -/
theorem active_step (h : s.active < config.max_sessions) (e : ServerEvent) :
    (s.step config e).active < config.max_sessions := by
  cases e with
  | accept =>
    have hothers := @countP_update_le s.sockets s.phase s.accepted .handshaking
      fun habsurd => absurd habsurd (by decide)
    have hsplit : (s.step config .accept).active = s.sockets.countP (fun other =>
        (Function.update s.phase s.accepted .handshaking other).isActive) := by
      show (s.sockets ++ [s.accepted]).countP _ = _
      rw [List.countP_append, List.countP_singleton]
      simp [step, ConnectionPhase.isActive]
    rw [hsplit]
    exact lt_of_le_of_lt hothers h
  | hello connection outcome =>
    simp only [step]
    split
    · have hover : (s.enter connection .over).active ≤ s.active :=
        countP_update_le _ _ fun habsurd => absurd habsurd (by decide)
      cases hverdict : verdict config s.sockets.length outcome with
      | waiting => exact h
      | refused => exact lt_of_le_of_lt hover h
      | tableFull => exact lt_of_le_of_lt hover h
      | admitted =>
        -- All registered connections were counted, so there are fewer than the bound.
        obtain ⟨frame, rfl, hhello⟩ := verdict_eq (Or.inr hverdict)
        rw [verdict_hello hhello] at hverdict
        split at hverdict
        · exact absurd hverdict (by simp)
        · have hle : (s.enter connection .admitted).active ≤ s.sockets.length :=
            List.countP_le_length
          exact lt_of_le_of_lt hle (by omega)
    · exact h
  | acknowledge connection written =>
    simp only [step]
    split
    · rename_i hphase
      refine lt_of_le_of_lt (countP_update_le _ _ fun _ => ?_) h
      rw [hphase.2]
      rfl
    · exact h
  | disconnect connection =>
    simp only [step]
    split
    · exact lt_of_le_of_lt (countP_update_le _ _ fun habsurd => absurd habsurd (by decide)) h
    · exact h
  | remove connection =>
    simp only [step]
    split
    · exact lt_of_le_of_lt (List.Sublist.countP_le List.erase_sublist) h
    · exact h

/-- A right hello is refused for a full table only if that many other sessions are open. -/
def Justified (config : ServerConfig) (s : ServerState) : ServerEvent → Prop
  | .hello connection outcome =>
    s.InPhase connection .handshaking → verdict config s.sockets.length outcome = .tableFull →
      config.max_sessions ≤ (s.openSessions.filter (· ≠ connection)).length
  | _ => True

instance Justified.instDecidable (config : ServerConfig) (s : ServerState) (e : ServerEvent) :
    Decidable (s.Justified config e) := by
  cases e <;> unfold Justified <;> infer_instance

/-- A right hello comes while fewer connections than the bound are registered, itself and those
whose handshake is not over included. -/
def HasRoom (config : ServerConfig) (s : ServerState) : ServerEvent → Prop
  | .hello connection outcome =>
    s.InPhase connection .handshaking →
      ∀ frame, outcome = .complete frame → IsHello config.session_token frame →
        s.sockets.length < config.max_sessions
  | _ => True

/-- While a place is kept free, no refusal for a full table is justified. -/
theorem justified_iff (h : s.active < config.max_sessions) (e : ServerEvent) :
    s.Justified config e ↔ s.HasRoom config e := by
  cases e with
  | hello connection outcome =>
    refine imp_congr_right fun _ => ?_
    have hothers : (s.openSessions.filter (· ≠ connection)).length < config.max_sessions :=
      lt_of_le_of_lt (List.length_filter_le _ _) (lt_of_le_of_lt s.openSessions_le h)
    constructor
    · intro hjustified frame hframe hhello
      subst hframe
      by_contra hfull
      refine absurd (hjustified ?_) (by omega)
      rw [verdict_hello hhello, if_pos (by omega)]
    · intro hroom hverdict
      obtain ⟨frame, hframe, hhello⟩ := verdict_eq (Or.inl hverdict)
      have hlt := hroom frame hframe hhello
      subst hframe
      rw [verdict_hello hhello, if_neg (by omega)] at hverdict
      exact absurd hverdict (by simp)
  | accept => exact Iff.rfl
  | acknowledge connection written => exact Iff.rfl
  | disconnect connection => exact Iff.rfl
  | remove connection => exact Iff.rfl

end ServerState

/-- Along every run of a server, a right hello is refused for a full table only if as many other
sessions as the bound says are open, exactly where it comes while there is room for the connection
itself and all that are registered. A server never has as many sessions open as its bound says. -/
theorem admission (config : ServerConfig) (h : 0 < config.max_sessions)
    (events : List ServerEvent) :
    (Runs.Along (ServerState.step config) (ServerState.Justified config) {} events ↔
      Runs.Along (ServerState.step config) (ServerState.HasRoom config) {} events) ∧
    (Runs.exec (ServerState.step config) {} events).openSessions.length < config.max_sessions := by
  have hkeeps : ∀ s e, s.active < config.max_sessions →
      (ServerState.step config s e).active < config.max_sessions := fun s e hs =>
    ServerState.active_step hs e
  have hstart : ({} : ServerState).active < config.max_sessions := h
  constructor
  · exact Runs.Along.congr_of_invariant hkeeps (fun s e hs => ServerState.justified_iff hs e) hstart
  · refine lt_of_le_of_lt (ServerState.openSessions_le _) ?_
    exact Runs.invariant (fun s e hs _ => hkeeps s e hs) hstart
      (Runs.Along.of_forall (fun _ _ => trivial) _ events)

/-- The frame of a hello with a token. -/
def helloFrame (token : Bytes) : Frame :=
  { type := .hello, payload := encodeHello { token } }

theorem admission_single :
    (Runs.Along (ServerState.step { session_token := [0x74], max_sessions := 1 })
        (ServerState.Justified { session_token := [0x74], max_sessions := 1 }) {} [.accept] ↔
      Runs.Along (ServerState.step { session_token := [0x74], max_sessions := 1 })
        (ServerState.HasRoom { session_token := [0x74], max_sessions := 1 }) {} [.accept]) ∧
    (Runs.exec (ServerState.step { session_token := [0x74], max_sessions := 1 }) {}
      [.accept]).openSessions.length < 1 :=
  admission { session_token := [0x74], max_sessions := 1 } (by decide) [.accept]

/-- The only connection of a server for one session is refused for a full table. -/
theorem sole_connection_refused :
    ¬ Runs.Along (ServerState.step { session_token := [0x74], max_sessions := 1 })
      (ServerState.Justified { session_token := [0x74], max_sessions := 1 }) {}
      [.accept, .hello 0 (.complete (helloFrame [0x74]))] := by
  decide

end Fcfn.Net
