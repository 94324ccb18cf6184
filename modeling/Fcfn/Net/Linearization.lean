import Fcfn.Net.Dispatch
import Fcfn.Net.Links

/-!
# Linearization

What the clients of a server see is linearized by the order in which their requests take effect
(`Exchange.Inv`): the runtime went through the requests of all sessions one by one, every session's
requests are the front of what its client has asked for, and every answer that a client was given is
that of its request. -/

namespace Fcfn.Net

open Words Runs

/-! ## The invariant of the system -/

/-- A request that takes effect keeps the epoch. -/
theorem SharedService.effect_epoch {ρ : Type} (service : SharedService ρ) (request : RequestPayload)
    (runtime : ρ) : service.epoch (service.effect request runtime).2 = service.epoch runtime := by
  have hepoch := service.epoch_dispatch request.operation request.arguments runtime
  rwa [service.dispatch_eq] at hepoch

namespace Exchange

section System

variable {ρ : Type} {service : SharedService ρ} {config : ServerConfig} {start : ρ} {x : Exchange ρ}

/-- The right answers to the calls of a connection. -/
def Gives (service : SharedService ρ) (start : ρ) (history : History) (i n : ℕ)
    (response : ResponsePayload) : Prop :=
  Shared.Answers service.effect service.look start history i n response

/-- The invariant of a server that started in a state. -/
structure Inv (service : SharedService ρ) (start : ρ) (x : Exchange ρ) : Prop where
  sequential : Shared.Sequential service.effect start x.history x.runtime
  links : ∀ (i : ℕ) (link : Link), x.links[i]? = some link →
    link.Inv (service.epoch start) (Shared.ofParty i x.history) (Gives service start x.history i)
  parties : ∀ entry ∈ x.history, entry.party < x.links.length

/-- What the connections have carried fits the fields of its frames. -/
def Within (x : Exchange ρ) : Prop := ∀ link ∈ x.links, link.Within

/-- The history and what the connections have carried only grow. -/
structure Grows (x x' : Exchange ρ) : Prop where
  history : x.history <+: x'.history
  links : ∀ (i : ℕ) (link : Link), x.links[i]? = some link →
    ∃ link', x'.links[i]? = some link' ∧ link.Extends link'

/-- No request changes the epoch. -/
theorem sequential_epoch {history : History} {s s' : ρ}
    (h : Shared.Sequential service.effect s history s') : service.epoch s' = service.epoch s := by
  induction history generalizing s with
  | nil => rw [show s' = s from h]
  | cons entry rest ih =>
    rw [ih h.2]
    exact service.effect_epoch _ _

/-- The runtime is in the epoch in which the server started. -/
theorem Inv.epoch (h : x.Inv service start) : service.epoch x.runtime = service.epoch start :=
  sequential_epoch h.sequential

/-- Nothing has happened. -/
theorem Grows.refl (x : Exchange ρ) : Grows x x :=
  ⟨List.prefix_rfl, fun _ link hlink => ⟨link, hlink, .refl link⟩⟩

/-- One thing after the other. -/
theorem Grows.trans {x x' x'' : Exchange ρ} (h : Grows x x') (h' : Grows x' x'') : Grows x x'' := by
  refine ⟨h.history.trans h'.history, fun i link hlink => ?_⟩
  obtain ⟨link', hlink', hextends⟩ := h.links i link hlink
  obtain ⟨link'', hlink'', hextends'⟩ := h'.links i link' hlink'
  exact ⟨link'', hlink'', hextends.trans hextends'⟩

/-- A connection is set, and the history goes on. -/
theorem Grows.set {x' : Exchange ρ} {i : ℕ} {link link' : Link} (hlink : x.links[i]? = some link)
    (hhistory : x.history <+: x'.history) (hlinks : x'.links = x.links.set i link')
    (hextends : link.Extends link') : Grows x x' := by
  refine ⟨hhistory, fun j other hother => ?_⟩
  have hlt := (List.getElem?_eq_some_iff.mp hlink).1
  rw [hlinks]
  by_cases hsame : i = j
  · subst hsame
    obtain rfl := Option.some.inj (hlink.symm.trans hother)
    exact ⟨link', List.getElem?_set_self hlt, hextends⟩
  · exact ⟨other, by rw [List.getElem?_set_ne hsame, hother], .refl other⟩

/-- What fits later has fitted before. -/
theorem Within.of_grows {x' : Exchange ρ} (h : x'.Within) (hgrows : Grows x x') : x.Within := by
  intro link hlink
  obtain ⟨i, hi⟩ := List.mem_iff_getElem?.mp hlink
  obtain ⟨link', hlink', hextends⟩ := hgrows.links i link hi
  exact (h link' (List.mem_of_getElem? hlink')).of_extends hextends

/-- A connection is set to one with the invariant. -/
theorem Inv.set (h : x.Inv service start) {x' : Exchange ρ} {i : ℕ} {link link' : Link}
    (hlink : x.links[i]? = some link)
    (hkept : link'.Inv (service.epoch start) (Shared.ofParty i x.history)
      (Gives service start x.history i))
    (hx' : x'.runtime = x.runtime ∧ x'.history = x.history ∧ x'.links = x.links.set i link') :
    x'.Inv service start := by
  obtain ⟨hruntime, hhistory, hlinks⟩ := hx'
  have hlt := (List.getElem?_eq_some_iff.mp hlink).1
  constructor
  · rw [hruntime, hhistory]
    exact h.sequential
  · intro j other hother
    rw [hhistory]
    rw [hlinks] at hother
    by_cases hsame : i = j
    · subst hsame
      rw [List.getElem?_set_self hlt] at hother
      obtain rfl := Option.some.inj hother
      exact hkept
    · rw [List.getElem?_set_ne hsame] at hother
      exact h.links j other hother
  · rw [hhistory, hlinks, List.length_set]
    exact h.parties

/-! ### The connections of a step -/

/-- A connection is changed. -/
theorem Grows.update {f : Link → Link} (x : Exchange ρ) (i : ℕ)
    (hf : ∀ link : Link, link.Extends (f link)) : Grows x (x.update i f) := by
  unfold Exchange.update
  split
  · exact .refl x
  · rename_i link hlink
    exact .set hlink List.prefix_rfl rfl (hf link)

/-- A connection is changed to one with the invariant. -/
theorem Inv.update {f : Link → Link} (h : x.Inv service start) {i : ℕ}
    (hf : ∀ link : Link, x.links[i]? = some link →
      link.Inv (service.epoch start) (Shared.ofParty i x.history) (Gives service start x.history i) →
      (f link).Inv (service.epoch start) (Shared.ofParty i x.history)
        (Gives service start x.history i)) :
    (x.update i f).Inv service start := by
  unfold Exchange.update
  split
  · exact h
  · rename_i link hlink
    exact h.set hlink (hf link hlink (h.links i link hlink)) ⟨rfl, rfl, rfl⟩

/-- Answering only adds to what a connection has carried. -/
theorem answeredLink_extends (link : Link) (serving : Serving) (response : ResponsePayload) :
    link.Extends (answeredLink config link serving response) := by
  unfold answeredLink
  dsimp only
  split
  · exact ⟨rfl, List.prefix_rfl, List.prefix_rfl, List.prefix_rfl⟩
  · exact ⟨rfl, List.prefix_rfl, List.prefix_rfl, List.prefix_append _ _⟩

/-- A session's thread only adds to the history and to what its connection has carried. -/
theorem serveStep_grows {i : ℕ} {link : Link} (hlink : x.links[i]? = some link) (read : Option ℕ) :
    Grows x (x.serveStep service config i link read) := by
  unfold serveStep
  split
  · rename_i serving _
    unfold goOn
    split
    · exact .set hlink (List.prefix_append _ _) rfl ⟨rfl, List.prefix_rfl, List.prefix_rfl, List.prefix_rfl⟩
    · exact .set hlink List.prefix_rfl rfl (answeredLink_extends link serving _)
  split
  · exact .set hlink List.prefix_rfl rfl ⟨rfl, List.prefix_rfl, List.prefix_rfl, List.prefix_rfl⟩
  split
  · exact .refl x
  · exact .set hlink List.prefix_rfl rfl ⟨rfl, List.prefix_rfl, List.prefix_rfl, List.prefix_append _ _⟩

/-- An event only adds to the history and to what the connections have carried. -/
theorem step_grows (x : Exchange ρ) (event : ExchangeEvent) :
    Grows x (x.step service config event) := by
  cases event with
  | connect client =>
    unfold step
    dsimp only
    split
    · exact .refl x
    · refine ⟨List.prefix_rfl, fun i link hlink => ⟨link, ?_, .refl link⟩⟩
      rw [List.getElem?_append_left (List.getElem?_eq_some_iff.mp hlink).1, hlink]
  | accept i =>
    unfold step
    dsimp only
    split
    · exact .refl x
    rename_i link hlink
    split
    · exact .refl x
    · exact .set hlink List.prefix_rfl rfl ⟨rfl, List.prefix_rfl, List.prefix_rfl, List.prefix_rfl⟩
  | serve i read =>
    unfold step
    dsimp only
    split
    · exact .refl x
    rename_i link hlink
    split
    · exact .refl x
    · exact serveStep_grows hlink read
  | remove i =>
    unfold step
    dsimp only
    split
    · exact .refl x
    split
    · exact ⟨List.prefix_rfl, (Grows.refl x).links⟩
    · exact .refl x
  | call i request written =>
    refine .update x i fun link => ?_
    split
    · exact link.call_extends request written
    · exact .refl link
  | receive i read =>
    refine .update x i fun link => ?_
    split
    · exact .refl link
    · exact link.receive_extends _
  | cut i to_server to_client =>
    exact .update x i fun link => ⟨rfl, List.prefix_rfl, List.prefix_rfl, List.prefix_rfl⟩
  | shutdown => exact ⟨List.prefix_rfl, (Grows.refl x).links⟩
  | kill => exact ⟨List.prefix_rfl, (Grows.refl x).links⟩

/-- A client connects. -/
theorem Inv.connect (h : x.Inv service start) (client : ClientConfig) :
    Exchange.Inv service start { x with links := x.links ++
      [{ config := client, to_server := encodeFrame (Client.helloFrame client) }] } := by
  refine ⟨h.sequential, fun i link hlink => ?_, fun entry hentry => ?_⟩
  · rcases Nat.lt_trichotomy i x.links.length with hlt | rfl | hgt
    · rw [List.getElem?_append_left hlt] at hlink
      exact h.links i link hlink
    · -- a new connection has no part of the history
      rw [List.getElem?_concat_length] at hlink
      obtain rfl := Option.some.inj hlink
      have hnone : Shared.ofParty x.links.length x.history = [] :=
        List.filter_eq_nil_iff.mpr fun entry hentry => by
          have hparty := h.parties entry hentry
          simp only [decide_eq_true_eq]
          omega
      rw [hnone]
      exact .connect (service.epoch start) client
    · rw [List.getElem?_eq_none (by rw [List.length_append, List.length_singleton]; omega)] at hlink
      exact absurd hlink (by simp)
  · have hparty := h.parties entry hentry
    rw [List.length_append]
    omega

/-- A request takes effect. -/
theorem Inv.takeEffect (h : x.Inv service start) {i : ℕ} {link : Link} (hlink : x.links[i]? = some link)
    {serving : Serving} (hserving : link.serving = some serving) (hfound : serving.found = none)
    (hopen : link.isStopped = false) : (x.takeEffect service i link serving).Inv service start := by
  have hlt := (List.getElem?_eq_some_iff.mp hlink).1
  have hhistory : (x.takeEffect service i link serving).history = x.history ++
      [⟨i, serving.request, (service.effect serving.request x.runtime).1⟩] := rfl
  have hlinks : (x.takeEffect service i link serving).links = x.links.set i { link with
      serving := some { serving with found := some (service.effect serving.request x.runtime).1 } } := rfl
  -- the answers that were right before stay right
  have hgives : ∀ (j n : ℕ) (response : ResponsePayload), Gives service start x.history j n response →
      Gives service start (x.takeEffect service i link serving).history j n response :=
    fun j n response hgiven => hgiven.append _
  refine ⟨h.sequential.concat i serving.request, fun j other hother => ?_, fun entry hentry => ?_⟩
  · rw [hlinks] at hother
    by_cases hsame : i = j
    · subst hsame
      rw [List.getElem?_set_self hlt] at hother
      obtain rfl := Option.some.inj hother
      have heffect := (h.links i link hlink).effect hserving hfound hopen i
        (service.effect serving.request x.runtime).1 (hgives i)
      have hown : Shared.ofParty i (x.takeEffect service i link serving).history =
          Shared.ofParty i x.history ++
            [⟨i, serving.request, (service.effect serving.request x.runtime).1⟩] := by
        rw [hhistory, Shared.ofParty_append]
        exact congrArg _ (Shared.ofParty_self ⟨i, serving.request, _⟩)
      rw [hown]
      exact heffect
    · rw [List.getElem?_set_ne hsame] at hother
      have hkept := (h.links j other hother).mono (hgives j)
      rw [hhistory, Shared.ofParty_append, Shared.ofParty_of_ne hsame, List.append_nil]
      exact hkept
  · rw [hlinks, List.length_set]
    rcases List.mem_append.mp hentry with hold | hnew
    · exact h.parties entry hold
    · rw [List.mem_singleton.mp hnew]
      exact hlt

/-- A session's thread goes on with its request. -/
theorem Inv.goOn (h : x.Inv service start) {i : ℕ} {link : Link} (hlink : x.links[i]? = some link)
    {serving : Serving} (hserving : link.serving = some serving) (hopen : link.isStopped = false) :
    (x.goOn service config i link serving).Inv service start := by
  have hlinkinv := h.links i link hlink
  unfold Exchange.goOn
  cases hfound : serving.found with
  | none => exact h.takeEffect hlink hserving hfound hopen
  | some found =>
    -- the session looks at the runtime as it is now, for its last request
    obtain ⟨last, hphase⟩ := hlinkinv.serving_phase hserving hopen
    obtain ⟨hstands, -⟩ := (Link.serves_requests hphase _).mp hlinkinv.serves
    obtain ⟨-, hlast⟩ := (Link.stands_found hserving hfound _ last).mp hstands
    obtain ⟨entry, hentry, hsame⟩ := Option.map_eq_some_iff.mp hlast
    obtain ⟨hrequest, hresponse⟩ := Prod.mk.inj hsame
    rw [List.getLast?_eq_getElem?] at hentry
    have hgives : Shared.Answers service.effect service.look start x.history i _
        (service.look entry.request entry.response x.runtime) :=
      Shared.Answers.of_now hentry h.sequential
    rw [hrequest, hresponse] at hgives
    exact h.set hlink (hlinkinv.answer hserving hfound hopen config hgives) ⟨rfl, rfl, rfl⟩

/-- A session's thread goes on. -/
theorem Inv.serveStep (h : x.Inv service start) {i : ℕ} {link : Link} (hlink : x.links[i]? = some link)
    (hopen : link.isStopped = false) (hwithin : link.Within) (read : Option ℕ) :
    (x.serveStep service config i link read).Inv service start := by
  have hlinkinv := h.links i link hlink
  unfold Exchange.serveStep
  split
  · rename_i serving hserving
    exact h.goOn hlink hserving hopen
  rename_i hserving
  split
  · rename_i frame request stream hnext
    obtain ⟨last, hphase, -, hframe, hcheck⟩ := nextRequest_eq_some hnext
    rw [h.epoch] at hcheck
    exact h.set hlink (hlinkinv.take hwithin hserving hphase (if_neg (by rw [hphase]; simp)) hframe hcheck
      _ (ite_eq_or_eq _ _ _).symm) ⟨rfl, rfl, rfl⟩
  · rename_i hnone
    split
    · exact h
    · rw [← h.epoch] at hlinkinv
      have hkept := hlinkinv.quiet_pass config hwithin hserving hnone
        (Link.readOf_prefix link.to_server read)
      rw [h.epoch] at hkept
      exact h.set hlink hkept ⟨rfl, rfl, rfl⟩

/-- An event keeps the invariant. -/
theorem step_inv (h : x.Inv service start) (event : ExchangeEvent)
    (hwithin : (x.step service config event).Within) :
    (x.step service config event).Inv service start := by
  have hbefore := hwithin.of_grows (step_grows x event)
  cases event with
  | connect client =>
    unfold step
    dsimp only
    split
    · exact h
    · exact h.connect client
  | accept i =>
    unfold step
    dsimp only
    split
    · exact h
    rename_i link hlink
    split
    · exact h
    · have hkept := h.links i link hlink
      have haccepted : ({ link with accepted := true } : Link).Inv (service.epoch start)
          (Shared.ofParty i x.history) (Gives service start x.history i) :=
        ⟨hkept.in_order, hkept.serves, hkept.wrote, hkept.receives, hkept.knows, hkept.returned,
          hkept.written⟩
      exact h.set hlink haccepted ⟨rfl, rfl, rfl⟩
  | serve i read =>
    unfold step
    dsimp only
    split
    · exact h
    rename_i link hlink
    split
    · exact h
    · rename_i hopen
      simp only [Bool.or_eq_true, not_or, Bool.not_eq_true] at hopen
      exact h.serveStep hlink hopen.2 (hbefore link (List.mem_of_getElem? hlink)) read
  | remove i =>
    unfold step
    dsimp only
    split
    · exact h
    split
    · exact ⟨h.sequential, h.links, h.parties⟩
    · exact h
  | call i request written =>
    refine h.update fun link hlink hkept => ?_
    split
    · rename_i hready
      exact hkept.call hready request written
    · exact hkept
  | receive i read =>
    refine h.update fun link hlink hkept => ?_
    split
    · exact hkept
    · exact hkept.receive (hbefore link (List.mem_of_getElem? hlink)).calls
        (hbefore link (List.mem_of_getElem? hlink)).sent (Link.readOf_prefix link.to_client read)
  | cut i to_server to_client => exact h.update fun link _ hkept => hkept.cut to_server to_client
  | shutdown => exact ⟨h.sequential, h.links, h.parties⟩
  | kill => exact ⟨h.sequential, h.links, h.parties⟩

/-! ### Runs -/

/-- Along a run the history and what the clients have asked for only grow. -/
theorem exec_grows (x : Exchange ρ) (events : List ExchangeEvent) :
    Grows x (exec (step service config) x events) := by
  induction events generalizing x with
  | nil => exact .refl x
  | cons event events ih => exact (step_grows x event).trans (ih _)

/-- A run from a state with the invariant keeps it, if what it has carried in the end fits. -/
theorem exec_inv (h : x.Inv service start) {events : List ExchangeEvent}
    (hwithin : (exec (step service config) x events).Within) :
    (exec (step service config) x events).Inv service start := by
  -- what fits in the end has fitted after every event before
  induction events using List.reverseRecOn with
  | nil => exact h
  | append_singleton events event ih =>
    rw [exec_append, exec_cons, exec_nil] at hwithin ⊢
    exact step_inv (ih (hwithin.of_grows (step_grows _ event))) event hwithin

/-- A server that has just started. -/
def initial (runtime : ρ) : Exchange ρ := { runtime }

/-- A server that has just started has the invariant. -/
theorem initial_inv (runtime : ρ) : (Exchange.initial runtime).Inv service runtime :=
  ⟨rfl, fun i link hlink => absurd hlink (by simp [initial]), by simp [initial]⟩

/-! ### What the clients see -/

/-- What the client of a connection has asked for. -/
def calls (x : Exchange ρ) (i : ℕ) : List RequestPayload := (x.links[i]?).elim [] Link.calls

/-- What the calls of the client have returned. -/
def results (x : Exchange ρ) (i : ℕ) : List (Result ResponsePayload) :=
  (x.links[i]?).elim [] Link.results

/-- What a client knows of its calls: at most one has not returned. -/
theorem Inv.waits (h : x.Inv service start) (i : ℕ) :
    (x.results i).length ≤ (x.calls i).length ∧ (x.calls i).length ≤ (x.results i).length + 1 := by
  unfold results calls
  cases hlink : x.links[i]? with
  | none => exact ⟨Nat.zero_le _, Nat.zero_le _⟩
  | some link =>
    have hknows := (h.links i link hlink).knows
    unfold Link.Knows at hknows
    show link.results.length ≤ link.calls.length ∧ link.calls.length ≤ link.results.length + 1
    split at hknows
    · rw [hknows.1, hknows.2.1]
      exact ⟨le_rfl, Nat.zero_le _⟩
    · rw [hknows.1, hknows.2]
      exact ⟨le_rfl, Nat.zero_le _⟩
    · have hlength := hknows.2.2.2.2
      omega
    · have hlength := hknows.2.2.2.2
      omega

end System

end Exchange

/-! ## The coordinator -/

/-- What a request finds when it takes effect. -/
def effect (request : RequestPayload) (served : Served) : ResponsePayload × Served :=
  match request.operation with
  | .describe =>
    (okWithJson .describe (Json.opened [("version", Json.text kVersionString),
      ("semantic_version", Json.number kSemanticVersion), ("startup", served.report.toJson),
      ("authority", served.state.currentAuthority.toJson)]) [], served)
  | .currentBoundary =>
    match served.state.boundary with
    | none => (failWith .currentBoundary ⟨.notFound, "no containment boundary is current"⟩, served)
    | some boundary =>
      (okWithJson .currentBoundary (Json.opened [("boundary", boundary.toJson)]) [], served)
  | .checkpoint =>
    match served.perform .checkpoint with
    | (.error status, served) => (failWith .checkpoint status, served)
    | (.ok _, served) =>
      (okWithJson .checkpoint (Json.opened [("checkpointed", Json.flag true)]) [], served)
  | operation => dispatch operation request.arguments served

/-- What is added to the response when the session looks at the runtime again. -/
def look (request : RequestPayload) (response : ResponsePayload) (served : Served) : ResponsePayload :=
  let close (key : String) (value : Bytes) : ResponsePayload :=
    if response.json = [] then response
    else { response with json := response.json ++ Json.closing key value }
  match request.operation with
  | .describe => close "stats" (served.stats served.calls).toJson
  | .currentBoundary => close "effect_state" (Json.string served.state.effect_state.token)
  | .checkpoint => close "sequence" (Json.number served.state.currentAuthority.issued_sequence)
  | _ => response

/-- Whether a request looks at the runtime again. -/
def Operation.looksAgain : Operation → Bool
  | .describe | .currentBoundary | .checkpoint => true
  | _ => false

/-- A request that does not look again takes effect as its dispatch. -/
theorem effect_once {request : RequestPayload} (h : request.operation.looksAgain = false)
    (served : Served) : effect request served = dispatch request.operation request.arguments served := by
  unfold effect
  cases hoperation : request.operation with
  | describe => simp [hoperation, Operation.looksAgain] at h
  | currentBoundary => simp [hoperation, Operation.looksAgain] at h
  | checkpoint => simp [hoperation, Operation.looksAgain] at h
  | _ => rfl

theorem look_once {request : RequestPayload} (h : request.operation.looksAgain = false)
    (response : ResponsePayload) (served : Served) : look request response served = response := by
  unfold look
  cases hoperation : request.operation with
  | describe => simp [hoperation, Operation.looksAgain] at h
  | currentBoundary => simp [hoperation, Operation.looksAgain] at h
  | checkpoint => simp [hoperation, Operation.looksAgain] at h
  | _ => rfl

/-- A dispatch takes effect and looks again. -/
theorem dispatch_eq_look (request : RequestPayload) (served : Served) :
    dispatch request.operation request.arguments served =
      (look request (effect request served).1 (effect request served).2, (effect request served).2) := by
  by_cases hlooks : request.operation.looksAgain = true
  · cases hoperation : request.operation with
    | describe =>
      simp only [dispatch, effect, look, hoperation, okWithJson, Json.opened_ne_nil, if_false]
      rw [← Json.object_concat]
      rfl
    | currentBoundary =>
      simp only [dispatch, effect, look, hoperation]
      unfold currentBoundary
      cases served.state.boundary with
      | none => rfl
      | some boundary =>
        simp only [okWithJson, Json.opened_ne_nil, if_false]
        rw [← Json.object_concat]
        rfl
    | checkpoint =>
      simp only [dispatch, effect, look, hoperation, answer, Served.perform, Fcfn.perform,
        Stateful.exec_map]
      rcases Stateful.exec (checkpoint (served.surroundings served.calls)) served.state with
        ⟨status | done, state⟩
      · rfl
      · simp only [Except.map, okWithJson, Json.opened_ne_nil, if_false]
        rw [← Json.object_concat]
        rfl
    | _ => simp [hoperation, Operation.looksAgain] at hlooks
  · rw [Bool.not_eq_true] at hlooks
    rw [effect_once hlooks, look_once hlooks]

/-- The coordinator as a service that sessions share. -/
def sharedCoordinator : SharedService Served :=
  { coordinator with effect, look, dispatch_eq := dispatch_eq_look }

namespace Sample

/-- Two clients connect. The first of them calls before the second, and is served after it. -/
def exchangeEvents : List ExchangeEvent :=
  [.connect { token := bytesOf "t" }, .connect { token := bytesOf "t" }, .accept 0, .accept 1,
    .serve 0 (some 4096), .serve 0 none, .serve 1 (some 30), .serve 1 (some 4096), .serve 1 none,
    .receive 0 (some 4096), .receive 0 none, .receive 1 (some 4096), .receive 1 none,
    .call 0 { operation := .evidence } none, .call 1 { operation := .attempts } none,
    .serve 0 (some 4096), .serve 0 none, .serve 1 (some 4096), .serve 1 none, .serve 1 none,
    .serve 1 none, .receive 1 (some 4096), .receive 1 none, .serve 0 none, .serve 0 none,
    .cut 0 0 20, .receive 0 (some 4096), .receive 0 (some 1)]

end Sample

set_option maxRecDepth 8000 in
/-- What the two clients have asked for fits. -/
theorem exchangeEvents_within : (exec (Exchange.step sharedCoordinator Sample.config)
    (.initial Sample.served) (Sample.exchangeEvents ++ [])).Within := by
  have hlinks : ∀ link ∈ (exec (Exchange.step sharedCoordinator Sample.config)
      (.initial Sample.served) (Sample.exchangeEvents ++ [])).links,
      (Client.helloFrame link.config).payload.length < 2 ^ 32 ∧
      (∀ request ∈ link.calls, (encodeRequest request).length < 2 ^ 32) ∧
      link.calls.length < 2 ^ 64 ∧ ∀ frame ∈ link.sent, frame.payload.length < 2 ^ 32 := by
    decide +kernel
  intro link hlink
  obtain ⟨hhello, hrequests, hcalls, hsent⟩ := hlinks link hlink
  exact ⟨hhello, hrequests, hcalls, hsent⟩

end Fcfn.Net
