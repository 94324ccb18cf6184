import Fcfn.Ctl.ConfigFiles
import Fcfn.Ctl.Fields

/-!
# Scenarios

The client runs a scenario line by line: a line is a command, which makes its calls, prints a step
and changes what the client knows, or an expectation of the step before it. A client knows what it
was answered and nothing else; it is run here against any peer that answers its calls. -/

namespace Fcfn.Scenario

open Words Net ConfigText

/-! ## The client -/

/-- What the calls of a client reach. -/
structure Peer (α : Type) where
  call : α → Operation → Bytes → Result ResponsePayload × α

/-- A call that was made, and what came of it. -/
structure Exchanged where
  operation : Operation
  arguments : Bytes
  outcome : Result ResponsePayload

/-- A step that was printed. -/
structure Step where
  verb : Bytes
  status : Bytes
  json : Bytes
  deriving DecidableEq, Repr

/-- A plan that was not computed. -/
def noPlan : ContainmentPlan where
  generation := 0
  authority := {}
  topology_digest := Digest.zero
  policy_digest := Digest.zero
  evidence_digest := Digest.zero

structure Session where
  /-- What the handshake reported. -/
  epoch : CoordinatorEpoch
  boot : BootIdentity
  authorization : AuthorizationId := 0
  plan : ContainmentPlan := noPlan
  have_plan : Bool := false
  attempt : AttemptSequence := 0
  have_attempt : Bool := false
  client_boot : BootIdentity
  applier_epoch : ApplierEpoch := 1
  applier_sequence : Sequence := 0
  last_status : Bytes := bytesOf "ok"
  /-- A step failed and has not yet been claimed by an expectation. -/
  pending_failure : Bool := false
  expectation_failed : Bool := false
  steps : ℕ := 0
  failures : ℕ := 0

/-- The session of a client after its handshake. -/
def Session.start (handshake : HelloAckPayload) : Session where
  epoch := handshake.epoch
  boot := handshake.boot
  client_boot := ⟨handshake.session + 0x1000, 0⟩

/-- A client at work: its session, what it talks to, its calls and what it printed. -/
structure Running (α : Type) where
  session : Session
  peer : α
  trace : List Exchanged := []
  printed : List Step := []

namespace Running

variable {α : Type}

def emitStep (r : Running α) (verb : Bytes) (status json : Bytes) : Running α :=
  { r with
    session := { r.session with
      steps := r.session.steps + 1
      last_status := status
      failures := if status ≠ bytesOf "ok" then r.session.failures + 1 else r.session.failures }
    printed := r.printed ++ [⟨verb, status, json⟩] }

/-- Print a step, and leave a failure to be claimed. -/
def failStep (r : Running α) (verb : Bytes) (status json : Bytes) : Running α :=
  let r := r.emitStep verb status json
  { r with session := { r.session with pending_failure := true } }

end Running

/-! ## What is shown of an answer -/

def statusJson (code : StatusCode) (message : Bytes) : Bytes :=
  Json.object [("code", Json.string code.token),
    ("message", Json.text (message.take kMaxStatusMessageLength))]

def responseJson (response : ResponsePayload) : Bytes :=
  if response.json ≠ [] then response.json else statusJson response.code response.message

/-- A document of a message alone. -/
def messageJson (message : String) : Bytes := Json.object [("message", Json.string message)]

/-- The status of a code. -/
def codeToken (code : StatusCode) : Bytes := bytesOf code.token

/-! ## Commands -/

section Commands

variable {α : Type} (peer : Peer α)

namespace Running

/-- Make a call. -/
def call (r : Running α) (operation : Operation) (arguments : Bytes) :
    Result ResponsePayload × Running α :=
  let (outcome, after) := peer.call r.peer operation arguments
  (outcome, { r with peer := after, trace := r.trace ++ [⟨operation, arguments, outcome⟩] })

/-- A step that failed with a status. -/
def failStatus (r : Running α) (verb : Bytes) (status : Status) : Running α :=
  r.failStep verb (codeToken status.code) (statusJson status.code (bytesOf status.message))

/-- A step that was refused without a call. -/
def refuse (r : Running α) (verb : Bytes) (message : String) : Running α :=
  r.failStep verb (bytesOf "invalid_argument") (messageJson message)

/-- An answer that failed. -/
def failResponse (r : Running α) (verb : Bytes) (response : ResponsePayload) : Running α :=
  r.failStep verb (codeToken response.code) (responseJson response)

/-- Run one operation and print its classified result. -/
def runOperation (r : Running α) (verb : Bytes) (operation : Operation) (arguments : Bytes) :
    Running α :=
  match r.call peer operation arguments with
  | (.error status, r) => r.failStatus verb status
  | (.ok response, r) =>
    if response.code = .ok then r.emitStep verb (codeToken response.code) (responseJson response)
    else r.failResponse verb response

/-- `files` is what can be opened under a name. -/
def commandTopology (r : Running α) (files : Bytes → Option Bytes) (parts : List Bytes) :
    Running α :=
  match parts with
  | [_, file] =>
    match parseTopologyFile (files file) >>= Topology.build with
    | .error status => r.failStatus (bytesOf "topology") status
    | .ok topology => r.runOperation peer (bytesOf "topology") .applyTopology topology.encode
  | _ => r.refuse (bytesOf "topology") "topology requires a file"

def commandPolicy (r : Running α) (files : Bytes → Option Bytes) (parts : List Bytes) : Running α :=
  match parts with
  | [_, file] =>
    match parsePolicyFile (files file) with
    | .error status => r.failStatus (bytesOf "policy") status
    | .ok policy => r.runOperation peer (bytesOf "policy") .applyPolicy policy.encode
  | _ => r.refuse (bytesOf "policy") "policy requires a file"

/-- The digest that the fields of a detection name, the last to win. -/
def detectDigest (digest : Digest) : List Bytes → Option Digest
  | [] => some digest
  | part :: parts =>
    match parseField part with
    | none => detectDigest digest parts
    | some (key, value) =>
      if key = bytesOf "digest" then
        match parseDigest value with
        | none => none
        | some digest => detectDigest digest parts
      else detectDigest digest parts

def commandDetect (r : Running α) (parts : List Bytes) : Running α :=
  match parts with
  | _ :: resource :: state :: generation :: fields =>
    match ResourceId.parse resource with
    | .error status => r.failStatus (bytesOf "detect") status
    | .ok resource =>
      match parseEvidenceState state with
      | none => r.refuse (bytesOf "detect") "unknown evidence state"
      | some state =>
        match (parseNumber generation).filter (· ≠ 0) with
        | none => r.refuse (bytesOf "detect") "generation must be positive"
        | some generation =>
          match detectDigest Digest.zero fields with
          | none => r.refuse (bytesOf "detect") "malformed digest"
          | some source_digest =>
            r.runOperation peer (bytesOf "detect") .recordDetection
              (encodeDetectionArguments ⟨resource, state, generation, source_digest⟩ 0)
  | _ => r.refuse (bytesOf "detect") "detect requires resource, state, generation"

def commandAuthorize (r : Running α) : Running α :=
  match r.call peer .authorize [] with
  | (.error status, r) => r.failStatus (bytesOf "authorize") status
  | (.ok response, r) =>
    if response.code ≠ .ok then r.failResponse (bytesOf "authorize") response
    else
      match jsonFieldU64 (responseJson response) (bytesOf "authorization_id") with
      | none => r.failStep (bytesOf "authorize") (bytesOf "protocol_violation")
          (messageJson "authorization response has no identifier")
      | some identifier =>
        let r := { r with session := { r.session with authorization := identifier } }
        r.emitStep (bytesOf "authorize") (bytesOf "ok") (responseJson response)

def commandPlan (r : Running α) : Running α :=
  match r.call peer .plan (encodeAuthorizationReference r.session.authorization) with
  | (.error status, r) => r.failStatus (bytesOf "plan") status
  | (.ok response, r) =>
    if response.code ≠ .ok then r.failResponse (bytesOf "plan") response
    else
      match ContainmentPlan.decode response.result with
      | .error status => r.failStatus (bytesOf "plan") status
      | .ok plan =>
        let r := { r with session := { r.session with plan, have_plan := true } }
        let claim := jsonStringField (responseJson response) (bytesOf "claim")
        r.emitStep (bytesOf "plan") (if claim = [] then bytesOf "ok" else claim) (responseJson response)

/-- The kind of a transition that a word names. -/
def parseKind (word : Bytes) : Option TransitionKind :=
  if word = bytesOf "expand" then some .expand
  else if word = bytesOf "contract" then some .contract
  else if word = bytesOf "release" then some .release
  else none

/-- The boundary that a transition is asked to follow: its generation, and whether there is none. -/
def expectedBoundary (boundary : Result ResponsePayload) : BoundaryGeneration × Bool :=
  match boundary with
  | .error _ => (0, true)
  | .ok response =>
    if response.code = .ok then
      ((jsonFieldU64 response.json (bytesOf "generation")).getD 0,
        (after (bytesOf "\"generation\"") response.json).isNone)
    else (0, true)

def commandTransition (r : Running α) (parts : List Bytes) : Running α :=
  match parts with
  | [_, word] =>
    match parseKind word with
    | none => r.refuse (bytesOf "transition") "unknown transition kind"
    | some kind =>
      if !r.session.have_plan then r.refuse (bytesOf "transition") "no plan has been computed"
      else
        let (boundary, r) := r.call peer .currentBoundary []
        let (generation, released) := expectedBoundary boundary
        match r.call peer .transition (encodeTransitionArguments ⟨kind, r.session.plan.generation,
            r.session.plan.digest, generation, released, r.session.authorization⟩) with
        | (.error status, r) => r.failStatus (bytesOf "transition") status
        | (.ok response, r) =>
          -- a refusal that is answered is not a failure of the step
          let decision := jsonStringField (responseJson response) (bytesOf "status")
          r.emitStep (bytesOf "transition") (if decision = [] then codeToken response.code else decision)
            (responseJson response)
  | _ => r.refuse (bytesOf "transition") "transition requires a kind"

def commandApply (r : Running α) : Running α :=
  if !r.session.have_plan then r.refuse (bytesOf "apply") "no plan has been computed"
  else
    match r.call peer .submitApply (encodeSubmitApplyArguments
        ⟨r.session.authorization, r.session.plan.generation, r.session.plan.digest⟩) with
    | (.error status, r) => r.failStatus (bytesOf "apply") status
    | (.ok response, r) =>
      if response.code ≠ .ok then r.failResponse (bytesOf "apply") response
      else
        let r :=
          match jsonFieldU64 (responseJson response) (bytesOf "attempt_sequence") with
          | none => r
          | some sequence =>
            { r with session := { r.session with
              attempt := sequence, have_attempt := true, applier_sequence := 0 } }
        r.emitStep (bytesOf "apply") (bytesOf "ok") (responseJson response)

/-- The number of the next report on an attempt is taken. -/
def countReport (r : Running α) : Running α :=
  { r with session := { r.session with applier_sequence := r.session.applier_sequence + 1 } }

def commandAck (r : Running α) (parts : List Bytes) : Running α :=
  let accepted := parts.length < 2 || parts[1]? == some (bytesOf "accepted")
  if !r.session.have_attempt then r.refuse (bytesOf "ack") "no attempt is in flight"
  else
    let r := r.countReport
    r.runOperation peer (bytesOf "ack") .acknowledge (encodeAcknowledgementArguments {
      id := ⟨r.session.plan.generation, r.session.attempt⟩
      expected_epoch := r.session.epoch
      expected_boot := r.session.boot
      applier_epoch := r.session.applier_epoch
      applier_boot := r.session.client_boot
      applier_sequence := r.session.applier_sequence
      observed_boundary_digest := r.session.plan.boundary.digest
      accepted })

/-- The observation that a word names. -/
def parseEffectObservation (word : Bytes) : Option EffectObservation :=
  if word = bytesOf "applied" then some .applied
  else if word = bytesOf "released" then some .released
  else if word = bytesOf "partially_applied" then some .partiallyApplied
  else if word = bytesOf "not_applied" then some .notApplied
  else if word = bytesOf "unknown" then some .unknown
  else none

def commandVerify (r : Running α) (parts : List Bytes) : Running α :=
  match parts with
  | [_, word] =>
    if !r.session.have_attempt then r.refuse (bytesOf "verify") "no attempt is in flight"
    else
      match parseEffectObservation word with
      | none => r.refuse (bytesOf "verify") "unknown effect observation"
      | some observation =>
        let r := r.countReport
        r.runOperation peer (bytesOf "verify") .verifyEffect (encodeVerificationArguments {
          id := ⟨r.session.plan.generation, r.session.attempt⟩
          expected_epoch := r.session.epoch
          expected_boot := r.session.boot
          applier_epoch := r.session.applier_epoch
          applier_boot := r.session.client_boot
          applier_sequence := r.session.applier_sequence
          observed_boundary_digest := r.session.plan.boundary.digest
          observation })
  | _ => r.refuse (bytesOf "verify") "verify requires an observation"

/-- Compare the status of the last step with the one that was expected. -/
def commandExpect (r : Running α) (parts : List Bytes) : Running α :=
  match parts with
  | [_, expected] =>
    let matched := r.session.last_status = expected
    let json := Json.object [("expected", Json.text expected),
      ("observed", Json.text r.session.last_status), ("matched", Json.flag matched)]
    { r with
      session := { r.session with
        pending_failure := if matched then false else r.session.pending_failure
        failures := if matched then r.session.failures else r.session.failures + 1
        expectation_failed := if matched then r.session.expectation_failed else true
        steps := r.session.steps + 1 }
      printed := r.printed ++
        [⟨bytesOf "expect", bytesOf (if matched then "ok" else "assertion_failed"), json⟩] }
  | _ => r.refuse (bytesOf "expect") "expect requires a token"

/-- The operations that a word alone asks for. -/
def plainOperations : List (String × Operation) :=
  [("describe", .describe), ("evidence", .evidence), ("boundary", .currentBoundary),
    ("attempts", .attempts), ("checkpoint", .checkpoint), ("shutdown", .shutdown)]

/-- Run a command, of which `verb` is the first word. -/
def runCommand (r : Running α) (files : Bytes → Option Bytes) (verb : Bytes) (parts : List Bytes) :
    Running α :=
  match plainOperations.find? fun entry => bytesOf entry.1 == verb with
  | some (_, operation) => r.runOperation peer verb operation []
  | none =>
    if verb = bytesOf "topology" then r.commandTopology peer files parts
    else if verb = bytesOf "policy" then r.commandPolicy peer files parts
    else if verb = bytesOf "detect" then r.commandDetect peer parts
    else if verb = bytesOf "authorize" then r.commandAuthorize peer
    else if verb = bytesOf "plan" then r.commandPlan peer
    else if verb = bytesOf "transition" then r.commandTransition peer parts
    else if verb = bytesOf "apply" then r.commandApply peer
    else if verb = bytesOf "ack" then r.commandAck peer parts
    else if verb = bytesOf "verify" then r.commandVerify peer parts
    else if verb = bytesOf "expect" then r.commandExpect parts
    else r.refuse verb "unknown command"

/-- Run a line: the command before a comment, if there is one. -/
def runLine (files : Bytes → Option Bytes) (r : Running α) (line : Bytes) : Running α :=
  match split (line.takeWhile (· ≠ byteOf '#')) with
  | [] => r
  | verb :: arguments => r.runCommand peer files verb (verb :: arguments)

/-- Run a scenario. -/
def runScenario (files : Bytes → Option Bytes) (r : Running α) (text : Bytes) : Running α :=
  (getLines text).foldl (runLine peer files) r

end Running

end Commands

end Fcfn.Scenario
