import Fcfn.Net.Documents
import Fcfn.Lib.Json

/-!
# The JSON writer

The writer of the source takes a document piece by piece and keeps the text written so far, how deep
the next piece stands, and whether a comma or a key comes before it. `Build` says what the pieces
describe: the value they are the parts of, and the containers that are still open. A writer's text
is at every moment the text of what its calls built, and the text of a finished document, compact or
not, is read back as the value that its calls describe (`documents_read_back`). -/

namespace Fcfn

open Words JsonText

/-! ## The writer -/

structure JsonWriter where
  out : Bytes := []
  pretty : Bool := false
  depth : ℤ := 0
  need_comma : Bool := false
  after_key : Bool := false

namespace JsonWriter

def newlineIndent (w : JsonWriter) : JsonWriter :=
  if w.pretty then
    { w with out := w.out ++ byteOf '\n' :: (List.replicate w.depth.toNat (bytesOf "  ")).flatten }
  else w

def beforeValue (w : JsonWriter) : JsonWriter :=
  if w.after_key then { w with after_key := false }
  else
    let w := if w.need_comma then { w with out := w.out ++ [byteOf ','] } else w
    { w.newlineIndent with need_comma := true }

/-- An object or an array begins. -/
def beginContainer (w : JsonWriter) (bracket : UInt8) : JsonWriter :=
  let w := w.beforeValue
  { w with out := w.out ++ [bracket], depth := w.depth + 1, need_comma := false }

/-- An object or an array ends. -/
def endContainer (w : JsonWriter) (bracket : UInt8) : JsonWriter :=
  let had_content := w.need_comma
  let w := { w with depth := w.depth - 1, need_comma := true }
  let w := if had_content then w.newlineIndent else w
  { w with out := w.out ++ [bracket] }

def beginObject (w : JsonWriter) : JsonWriter := w.beginContainer (byteOf '{')

def endObject (w : JsonWriter) : JsonWriter := w.endContainer (byteOf '}')

def beginArray (w : JsonWriter) : JsonWriter := w.beginContainer (byteOf '[')

def endArray (w : JsonWriter) : JsonWriter := w.endContainer (byteOf ']')

def key (w : JsonWriter) (name : Bytes) : JsonWriter :=
  let w := if w.need_comma then { w with out := w.out ++ [byteOf ','] } else w
  let w := { w.newlineIndent with need_comma := true }
  { w with
    out := w.out ++ Json.text name ++ [byteOf ':'] ++ (if w.pretty then [byteOf ' '] else [])
    after_key := true }

/-- A value that is written in one piece. -/
def value (w : JsonWriter) (text : Bytes) : JsonWriter :=
  let w := w.beforeValue
  { w with out := w.out ++ text }

end JsonWriter

/-- A call of the writer. -/
inductive JsonCall
  | beginObject
  | endObject
  | beginArray
  | endArray
  | key (name : Bytes)
  | text (bytes : Bytes)
  | unsigned (n : UInt64)
  | signed (n : Int64)
  | flag (b : Bool)
  | null

def JsonWriter.call (w : JsonWriter) : JsonCall → JsonWriter
  | .beginObject => w.beginObject
  | .endObject => w.endObject
  | .beginArray => w.beginArray
  | .endArray => w.endArray
  | .key name => w.key name
  | .text bytes => w.value (Json.text bytes)
  | .unsigned n => w.value (toDecimal n)
  | .signed n => w.value (integer n.toInt)
  | .flag b => w.value (bytesOf (if b then "true" else "false"))
  | .null => w.value (bytesOf "null")

/-- A writer after some calls. -/
def JsonWriter.calls (w : JsonWriter) (calls : List JsonCall) : JsonWriter := calls.foldl call w

/-! ## What calls describe -/

/-- A container that is open. -/
inductive OpenContainer
  | array (elements : List Value)
  | object (members : List (Bytes × Value))
  | keyed (members : List (Bytes × Value)) (key : Bytes)

/-- What some calls built: the containers that they left open, the innermost first, or a document. -/
inductive Build
  | parts (containers : List OpenContainer)
  | document (v : Value)

namespace Build

/-- A finished value goes to the container that waits for it. -/
def place (v : Value) : List OpenContainer → Option Build
  | [] => some (.document v)
  | .array elements :: below => some (.parts (.array (elements ++ [v]) :: below))
  | .keyed members key :: below => some (.parts (.object (members ++ [(key, v)]) :: below))
  | .object _ :: _ => none

/-- Whether a value may stand next. -/
def awaits : List OpenContainer → Bool
  | .object _ :: _ => false
  | _ => true

/-- What one more call builds, when it may stand there. -/
def call : Build → JsonCall → Option Build
  | .document _, _ => none
  | .parts containers, .beginObject =>
    if awaits containers then some (.parts (.object [] :: containers)) else none
  | .parts containers, .beginArray =>
    if awaits containers then some (.parts (.array [] :: containers)) else none
  | .parts (.object members :: below), .endObject => place (.object members) below
  | .parts (.array elements :: below), .endArray => place (.array elements) below
  | .parts (.object members :: below), .key name => some (.parts (.keyed members name :: below))
  | .parts containers, .text bytes => place (.text bytes) containers
  | .parts containers, .unsigned n => place (.number n.toNat) containers
  | .parts containers, .signed n => place (.number n.toInt) containers
  | .parts containers, .flag b => place (.flag b) containers
  | .parts containers, .null => place .null containers
  | .parts _, .endObject => none
  | .parts _, .endArray => none
  | .parts _, .key _ => none

/-- What calls build from the start. -/
def calls (build : Build) (calls : List JsonCall) : Option Build := calls.foldlM call build

end Build

/-- The document that calls describe. -/
def JsonCall.describes (calls : List JsonCall) (v : Value) : Prop :=
  Build.calls (.parts []) calls = some (.document v)

/-! ## The styles of the writer -/

namespace Json

/-- A byte that stands for itself is read as it is. -/
theorem readChars_plain {c : UInt8} (hquote : c ≠ 0x22) (hslash : c ≠ 0x5c) (h : ¬ c < 0x20)
    (rest : Bytes) :
    readChars (c :: rest) = (readChars rest).map fun found => (c :: found.1, found.2) := by
  rw [readChars.eq_def]
  dsimp only
  rw [if_neg hquote, if_neg hslash, if_neg h, Option.map_eq_bind]
  rfl

/-- A byte behind a backslash is read as the byte that it stands for. -/
theorem readChars_escaped {c e : UInt8} (hcode : e ≠ 0x75) (h : unescape e = some c)
    (rest : Bytes) :
    readChars (0x5c :: e :: rest) = (readChars rest).map fun found => (c :: found.1, found.2) := by
  rw [readChars.eq_def]
  dsimp only
  rw [if_neg (by decide), if_pos rfl, if_neg hcode, h, Option.map_eq_bind]
  rfl

/-- A code of four digits is read as the byte of the code. -/
theorem readChars_code {c h₃ h₂ h₁ h₀ : UInt8} (h : readCode h₃ h₂ h₁ h₀ = some c) (rest : Bytes) :
    readChars (0x5c :: 0x75 :: h₃ :: h₂ :: h₁ :: h₀ :: rest) =
      (readChars rest).map fun found => (c :: found.1, found.2) := by
  rw [readChars.eq_def]
  dsimp only
  rw [if_neg (by decide), if_pos rfl, if_pos rfl, h, Option.map_eq_bind]
  rfl

/-- What the writer puts for a byte is read back as the byte. -/
theorem readChars_escapeByte (c : UInt8) (rest : Bytes) :
    readChars (escapeByte c ++ rest) =
      (readChars rest).map fun found => (c :: found.1, found.2) := by
  unfold escapeByte
  split_ifs with hquote hslash hn hr ht hb hf hlow
  · exact readChars_escaped (by decide) (by subst hquote; rfl) rest
  · exact readChars_escaped (by decide) (by subst hslash; rfl) rest
  · exact readChars_escaped (by decide) (by subst hn; rfl) rest
  · exact readChars_escaped (by decide) (by subst hr; rfl) rest
  · exact readChars_escaped (by decide) (by subst ht; rfl) rest
  · exact readChars_escaped (by decide) (by subst hb; rfl) rest
  · exact readChars_escaped (by decide) (by subst hf; rfl) rest
  · -- a control byte: a code of which the first two digits are zero
    have hcodes : ∀ k < 0x20, readCode (hexDigit (k / 16 / 16 / 16 % 16))
        (hexDigit (k / 16 / 16 % 16)) (hexDigit (k / 16 % 16)) (hexDigit (k % 16)) =
          some k.toUInt8 := by decide
    have hcode := hcodes c.toNat (UInt8.lt_iff_toNat_lt.mp hlow)
    rw [Nat.toUInt8_eq, UInt8.ofNat_toNat] at hcode
    exact readChars_code hcode rest
  · exact readChars_plain hquote hslash hlow rest

/-- A text is read up to its closing quote. -/
theorem readChars_text (bytes rest : Bytes) :
    readChars (bytes.flatMap escapeByte ++ 0x22 :: rest) = some (bytes, rest) := by
  induction bytes with
  | nil =>
    rw [List.flatMap_nil, List.nil_append, readChars.eq_def]
    rfl
  | cons c bytes ih =>
    rw [List.flatMap_cons, List.append_assoc, readChars_escapeByte, ih, Option.map_some]

/-- How the writer writes: on one line, or a line for each element and member. -/
def style (pretty : Bool) : Style where
  gap depth :=
    if pretty then byteOf '\n' :: (List.replicate depth (bytesOf "  ")).flatten else []
  colon := if pretty then [byteOf ' '] else []
  quote := text
  gap_blank := by
    intro depth c hc
    cases pretty with
    | false => exact absurd hc (by simp)
    | true =>
      simp only [if_true, List.mem_cons, List.mem_flatten, List.mem_replicate] at hc
      obtain rfl | ⟨blanks, ⟨-, rfl⟩, hc⟩ := hc
      · rfl
      · have hall : (bytesOf "  ").all isBlank = true := by decide
        exact List.all_eq_true.mp hall c hc
  colon_blank := by
    intro c hc
    cases pretty with
    | false => exact absurd hc (by simp)
    | true =>
      obtain rfl := List.mem_singleton.mp hc
      rfl
  quote_read := by
    intro bytes rest
    refine ⟨bytes.flatMap escapeByte ++ [0x22], rfl, ?_⟩
    rw [List.append_assoc]
    exact readChars_text bytes rest

end Json

/-! ## What a writer has written -/

namespace Build

/-- What stands between an open container and its next piece. -/
def separator (pretty : Bool) : List OpenContainer → Bytes
  | [] => (Json.style pretty).gap 0
  | .array elements :: below =>
    (if elements.isEmpty then [] else [0x2c]) ++ (Json.style pretty).gap (below.length + 1)
  | .object members :: below =>
    (if members.isEmpty then [] else [0x2c]) ++ (Json.style pretty).gap (below.length + 1)
  | .keyed _ _ :: _ => []

/-- The text of open containers. -/
def openText (pretty : Bool) : List OpenContainer → Bytes
  | [] => []
  | .array elements :: below => openText pretty below ++ separator pretty below ++
      0x5b :: renderElements (Json.style pretty) (below.length + 1) elements
  | .object members :: below => openText pretty below ++ separator pretty below ++
      0x7b :: renderMembers (Json.style pretty) (below.length + 1) members
  | .keyed members key :: below => openText pretty below ++ separator pretty below ++
      0x7b :: (renderMembers (Json.style pretty) (below.length + 1) members ++
        separator pretty (.object members :: below) ++ Json.text key ++
          0x3a :: (Json.style pretty).colon)

/-- Whether a comma stands before the next piece. -/
def needsComma : List OpenContainer → Bool
  | [] => false
  | .array elements :: _ => !elements.isEmpty
  | .object members :: _ => !members.isEmpty
  | .keyed _ _ :: _ => true

/-- Whether a key waits for its value. -/
def hasKey : List OpenContainer → Bool
  | .keyed _ _ :: _ => true
  | _ => false

end Build

open Build

/-- A writer has written some open containers. -/
structure JsonWriter.Writes (w : JsonWriter) (pretty : Bool) (containers : List OpenContainer) :
    Prop where
  out : w.out = openText pretty containers
  pretty : w.pretty = pretty
  depth : w.depth = containers.length
  need_comma : w.need_comma = needsComma containers
  after_key : w.after_key = hasKey containers

/-- A writer has written a value behind some open containers. -/
structure JsonWriter.Placed (w : JsonWriter) (pretty : Bool) (containers : List OpenContainer)
    (v : Value) : Prop where
  out : w.out = openText pretty containers ++ separator pretty containers ++
    render (Json.style pretty) containers.length v
  pretty : w.pretty = pretty
  depth : w.depth = containers.length
  need_comma : w.need_comma = true
  after_key : w.after_key = false

/-- A writer has written what some calls built. -/
def JsonWriter.Matches (w : JsonWriter) (pretty : Bool) : Build → Prop
  | .parts containers => w.Writes pretty containers
  | .document v =>
    w.out = (Json.style pretty).gap 0 ++ render (Json.style pretty) 0 v

namespace JsonWriter

variable {w : JsonWriter} {pretty : Bool} {containers : List OpenContainer} {v : Value}

theorem newlineIndent_eq (w : JsonWriter) {depth : ℕ} (h : w.depth = depth) :
    w.newlineIndent = { w with out := w.out ++ (Json.style w.pretty).gap depth } := by
  obtain ⟨out, pretty, depth', need_comma, after_key⟩ := w
  dsimp only at h
  subst h
  unfold newlineIndent Json.style
  cases pretty with
  | true => rfl
  | false => simp

/-- Before a value the writer puts what separates it. -/
theorem Writes.beforeValue (h : w.Writes pretty containers) (hawaits : awaits containers = true) :
    w.beforeValue = ⟨openText pretty containers ++ separator pretty containers, pretty,
      containers.length, true, false⟩ := by
  obtain ⟨out, pretty', depth, need_comma, after_key⟩ := w
  obtain ⟨hout, hpretty, hdepth, hcomma, hkey⟩ := h
  dsimp only at hout hpretty hdepth hcomma hkey
  subst hout hpretty hdepth hcomma hkey
  unfold JsonWriter.beforeValue
  cases containers with
  | nil =>
    simp only [hasKey, needsComma, Bool.false_eq_true, if_false]
    rw [newlineIndent_eq _ rfl]
    simp [separator]
  | cons container below =>
    cases container with
    | object members => exact absurd hawaits (by simp [awaits])
    | keyed members key => simp [hasKey, needsComma, separator]
    | array elements =>
      simp only [hasKey, needsComma, Bool.false_eq_true, if_false]
      cases elements with
      | nil =>
        simp only [List.isEmpty_nil, Bool.not_true, Bool.false_eq_true, if_false]
        rw [newlineIndent_eq _ rfl]
        simp [separator]
      | cons v elements =>
        simp only [List.isEmpty_cons, Bool.not_false, if_true]
        rw [newlineIndent_eq _ rfl]
        simp [separator]
        rfl

/-- A value in one piece. -/
theorem Writes.value (h : w.Writes pretty containers) (hawaits : awaits containers = true)
    {text : Bytes} (htext : text = render (Json.style pretty) containers.length v) :
    (w.value text).Placed pretty containers v := by
  unfold JsonWriter.value
  rw [h.beforeValue hawaits, htext]
  exact ⟨rfl, rfl, rfl, rfl, rfl⟩

/-- A container begins. -/
theorem Writes.beginContainer (h : w.Writes pretty containers) (hawaits : awaits containers = true)
    (bracket : UInt8) : w.beginContainer bracket =
      ⟨openText pretty containers ++ separator pretty containers ++ [bracket], pretty,
        containers.length + 1, false, false⟩ := by
  unfold JsonWriter.beginContainer
  rw [h.beforeValue hawaits]

/-- An object goes on with a key. -/
theorem Writes.key {members : List (Bytes × Value)} {below : List OpenContainer}
    (h : w.Writes pretty (.object members :: below)) (name : Bytes) :
    (w.key name).Writes pretty (.keyed members name :: below) := by
  obtain ⟨out, pretty', depth, need_comma, after_key⟩ := w
  obtain ⟨hout, hpretty, hdepth, hcomma, hkey⟩ := h
  dsimp only at hout hpretty hdepth hcomma hkey
  subst hout hpretty hdepth hcomma hkey
  have hcolon : (if pretty' then [byteOf ' '] else []) = (Json.style pretty').colon := rfl
  unfold JsonWriter.key
  cases members with
  | nil =>
    simp only [needsComma, List.isEmpty_nil, Bool.not_true, Bool.false_eq_true, if_false]
    rw [newlineIndent_eq _ rfl]
    refine ⟨?_, rfl, rfl, rfl, rfl⟩
    simp [openText, separator, hcolon]
    rfl
  | cons m ms =>
    simp only [needsComma, List.isEmpty_cons, Bool.not_false, if_true]
    rw [newlineIndent_eq _ rfl]
    refine ⟨?_, rfl, rfl, rfl, rfl⟩
    simp [openText, separator, hcolon]
    exact ⟨rfl, rfl⟩

/-- A container ends: it is a value behind those that it stood in. -/
theorem Writes.endArray {elements : List Value} {below : List OpenContainer}
    (h : w.Writes pretty (.array elements :: below)) :
    w.endArray.Placed pretty below (.array elements) := by
  obtain ⟨out, pretty', depth, need_comma, after_key⟩ := w
  obtain ⟨hout, hpretty, hdepth, hcomma, hkey⟩ := h
  dsimp only at hout hpretty hdepth hcomma hkey
  subst hout hpretty hdepth hcomma hkey
  have hdepth : ((List.length (OpenContainer.array elements :: below) : ℕ) : ℤ) - 1 =
      (below.length : ℕ) := by
    rw [List.length_cons]
    omega
  unfold JsonWriter.endArray endContainer
  rw [hdepth]
  cases elements with
  | nil =>
    refine ⟨?_, rfl, rfl, rfl, rfl⟩
    simp [openText, needsComma, render, renderElements]
    rfl
  | cons v elements =>
    simp only [needsComma, List.isEmpty_cons, Bool.not_false, if_true]
    rw [newlineIndent_eq _ rfl]
    refine ⟨?_, rfl, rfl, rfl, rfl⟩
    simp [openText, render]
    rfl

theorem Writes.endObject {members : List (Bytes × Value)} {below : List OpenContainer}
    (h : w.Writes pretty (.object members :: below)) :
    w.endObject.Placed pretty below (.object members) := by
  obtain ⟨out, pretty', depth, need_comma, after_key⟩ := w
  obtain ⟨hout, hpretty, hdepth, hcomma, hkey⟩ := h
  dsimp only at hout hpretty hdepth hcomma hkey
  subst hout hpretty hdepth hcomma hkey
  have hdepth : ((List.length (OpenContainer.object members :: below) : ℕ) : ℤ) - 1 =
      (below.length : ℕ) := by
    rw [List.length_cons]
    omega
  unfold JsonWriter.endObject endContainer
  rw [hdepth]
  cases members with
  | nil =>
    refine ⟨?_, rfl, rfl, rfl, rfl⟩
    simp [openText, needsComma, render, renderMembers]
    rfl
  | cons m members =>
    simp only [needsComma, List.isEmpty_cons, Bool.not_false, if_true]
    rw [newlineIndent_eq _ rfl]
    refine ⟨?_, rfl, rfl, rfl, rfl⟩
    simp [openText, render]
    rfl

/-- A value that is placed belongs to what its calls built. -/
theorem Placed.matches {build : Build} (h : w.Placed pretty containers v)
    (hplace : place v containers = some build) : w.Matches pretty build := by
  obtain ⟨hout, hpretty, hdepth, hcomma, hkey⟩ := h
  cases containers with
  | nil =>
    obtain rfl := Option.some.inj hplace
    exact hout
  | cons container below =>
    cases container with
    | object members => exact absurd hplace (by simp [place])
    | array elements =>
      obtain rfl := Option.some.inj hplace
      refine ⟨?_, hpretty, hdepth, ?_, hkey⟩
      · rw [hout, openText, openText, renderElements_concat]
        simp [separator]
      · rw [hcomma, needsComma]
        simp
    | keyed members key =>
      obtain rfl := Option.some.inj hplace
      refine ⟨?_, hpretty, hdepth, ?_, hkey⟩
      · rw [hout, openText, openText, renderMembers_concat]
        simp [separator]
        rfl
      · rw [hcomma, needsComma]
        simp

/-- A place for a value is one where a value may stand. -/
theorem awaits_of_place {build : Build} (h : place v containers = some build) :
    awaits containers = true := by
  cases containers with
  | nil => rfl
  | cons container below =>
    cases container with
    | array elements => rfl
    | keyed members key => rfl
    | object members => exact absurd h (by simp [place])

/-- One call writes what it builds. -/
theorem Matches.call {build build' : Build} (h : w.Matches pretty build) {call : JsonCall}
    (hcall : build.call call = some build') : (w.call call).Matches pretty build' := by
  cases build with
  | document v => exact absurd hcall (by simp [Build.call])
  | parts containers =>
    have hpiece : ∀ {text : Bytes} {v : Value},
        (∀ depth, text = render (Json.style pretty) depth v) →
          place v containers = some build' → (w.value text).Matches pretty build' :=
      fun htext hplace =>
        (Writes.value h (awaits_of_place hplace) (htext _)).matches hplace
    cases call with
    | beginObject =>
      simp only [Build.call] at hcall
      split at hcall
      · rename_i hawaits
        obtain rfl := Option.some.inj hcall
        unfold JsonWriter.call beginObject
        rw [Writes.beginContainer h hawaits]
        refine ⟨?_, rfl, by simp, rfl, rfl⟩
        simp [openText, renderMembers]
        rfl
      · exact absurd hcall (by simp)
    | beginArray =>
      simp only [Build.call] at hcall
      split at hcall
      · rename_i hawaits
        obtain rfl := Option.some.inj hcall
        unfold JsonWriter.call beginArray
        rw [Writes.beginContainer h hawaits]
        refine ⟨?_, rfl, by simp, rfl, rfl⟩
        simp [openText, renderElements]
        rfl
      · exact absurd hcall (by simp)
    | endObject =>
      cases containers with
      | nil => exact absurd hcall (by simp [Build.call])
      | cons container below =>
        cases container with
        | object members => exact (Writes.endObject h).matches hcall
        | array elements => exact absurd hcall (by simp [Build.call])
        | keyed members key => exact absurd hcall (by simp [Build.call])
    | endArray =>
      cases containers with
      | nil => exact absurd hcall (by simp [Build.call])
      | cons container below =>
        cases container with
        | array elements => exact (Writes.endArray h).matches hcall
        | object members => exact absurd hcall (by simp [Build.call])
        | keyed members key => exact absurd hcall (by simp [Build.call])
    | key name =>
      cases containers with
      | nil => exact absurd hcall (by simp [Build.call])
      | cons container below =>
        cases container with
        | object members =>
          obtain rfl := Option.some.inj hcall
          exact Writes.key h name
        | array elements => exact absurd hcall (by simp [Build.call])
        | keyed members key => exact absurd hcall (by simp [Build.call])
    | text bytes => exact hpiece (fun _ => rfl) hcall
    | unsigned n => exact hpiece (fun _ => rfl) hcall
    | signed n => exact hpiece (fun _ => rfl) hcall
    | flag b => exact hpiece (fun _ => by cases b <;> rfl) hcall
    | null => exact hpiece (fun _ => rfl) hcall

/-- Calls write what they build. -/
theorem Matches.calls {build build' : Build} (h : w.Matches pretty build) {calls : List JsonCall}
    (hcalls : build.calls calls = some build') : (w.calls calls).Matches pretty build' := by
  induction calls generalizing w build with
  | nil =>
    obtain rfl := Option.some.inj hcalls
    exact h
  | cons call calls ih =>
    rw [Build.calls, List.foldlM_cons] at hcalls
    obtain ⟨next, hnext, hrest⟩ := Option.bind_eq_some_iff.mp hcalls
    exact ih (h.call hnext) hrest

end JsonWriter

/-! ## The calls of a value -/

mutual

/-- The numbers of a value fit the writer's. -/
def JsonText.Value.Fits : Value → Prop
  | .number n => -2 ^ 63 ≤ n ∧ n < 2 ^ 64
  | .array elements => ElementsFit elements
  | .object members => MembersFit members
  | _ => True

def ElementsFit : List Value → Prop
  | [] => True
  | v :: rest => v.Fits ∧ ElementsFit rest

def MembersFit : List (Bytes × Value) → Prop
  | [] => True
  | (_, v) :: rest => v.Fits ∧ MembersFit rest

end

mutual

/-- The calls that write a value. -/
def JsonText.Value.calls : Value → List JsonCall
  | .null => [.null]
  | .flag b => [.flag b]
  | .number n => if 0 ≤ n then [.unsigned (UInt64.ofNat n.toNat)] else [.signed (Int64.ofInt n)]
  | .text bytes => [.text bytes]
  | .array elements => .beginArray :: (elementCalls elements ++ [.endArray])
  | .object members => .beginObject :: (memberCalls members ++ [.endObject])

def elementCalls : List Value → List JsonCall
  | [] => []
  | v :: rest => v.calls ++ elementCalls rest

def memberCalls : List (Bytes × Value) → List JsonCall
  | [] => []
  | (key, v) :: rest => .key key :: (v.calls ++ memberCalls rest)

end

namespace Build

theorem calls_append (build : Build) (first rest : List JsonCall) :
    build.calls (first ++ rest) = (build.calls first).bind fun next => next.calls rest := by
  unfold Build.calls
  rw [List.foldlM_append]
  rfl

theorem calls_cons (build : Build) (call : JsonCall) (rest : List JsonCall) :
    build.calls (call :: rest) = (build.call call).bind fun next => next.calls rest := by
  unfold Build.calls
  rw [List.foldlM_cons]
  rfl

theorem calls_singleton (build : Build) (call : JsonCall) :
    build.calls [call] = build.call call := by
  rw [calls_cons]
  cases build.call call with
  | none => rfl
  | some next => rfl

/-- A container begins where a value may stand. -/
theorem call_begin {containers : List OpenContainer} (h : awaits containers = true) :
    Build.call (.parts containers) .beginArray = some (.parts (.array [] :: containers)) ∧
      Build.call (.parts containers) .beginObject = some (.parts (.object [] :: containers)) := by
  simp only [Build.call, h, if_true, and_self]

mutual

/-- The calls of a value place it where a value may stand. -/
theorem calls_value (v : Value) (h : v.Fits) (containers : List OpenContainer)
    (hawaits : awaits containers = true) :
    Build.calls (.parts containers) v.calls = place v containers := by
  cases v with
  | null => exact calls_singleton _ _
  | flag b => exact calls_singleton _ _
  | text bytes => exact calls_singleton _ _
  | number n =>
    obtain ⟨hlow, hhigh⟩ := h
    unfold Value.calls
    split
    · rename_i hpos
      rw [calls_singleton]
      show place (.number (UInt64.ofNat n.toNat).toNat) containers = _
      have hfits : n.toNat < UInt64.size := by
        show n.toNat < 2 ^ 64
        omega
      rw [UInt64.toNat_ofNat_of_lt' hfits, Int.toNat_of_nonneg hpos]
    · rw [calls_singleton]
      show place (.number (Int64.ofInt n).toInt) containers = _
      rw [Int64.toInt_ofInt_of_le hlow (by omega)]
  | array elements =>
    unfold Value.calls
    rw [calls_cons, (call_begin hawaits).1, Option.bind_some, calls_append,
      calls_elements elements h [] containers, Option.bind_some, List.nil_append]
    exact calls_singleton _ _
  | object members =>
    unfold Value.calls
    rw [calls_cons, (call_begin hawaits).2, Option.bind_some, calls_append,
      calls_members members h [] containers, Option.bind_some, List.nil_append]
    exact calls_singleton _ _

theorem calls_elements (vs : List Value) (h : ElementsFit vs) (elements : List Value)
    (below : List OpenContainer) :
    Build.calls (.parts (.array elements :: below)) (elementCalls vs) =
      some (.parts (.array (elements ++ vs) :: below)) := by
  cases vs with
  | nil =>
    rw [List.append_nil]
    rfl
  | cons v vs =>
    obtain ⟨hv, hvs⟩ := h
    have hfirst := calls_value v hv (.array elements :: below) rfl
    have hrest := calls_elements vs hvs (elements ++ [v]) below
    rw [elementCalls, calls_append, hfirst, place, Option.bind_some, hrest, List.append_assoc]
    rfl

theorem calls_members (ms : List (Bytes × Value)) (h : MembersFit ms)
    (members : List (Bytes × Value)) (below : List OpenContainer) :
    Build.calls (.parts (.object members :: below)) (memberCalls ms) =
      some (.parts (.object (members ++ ms) :: below)) := by
  cases ms with
  | nil =>
    rw [List.append_nil]
    rfl
  | cons m ms =>
    obtain ⟨key, v⟩ := m
    obtain ⟨hv, hms⟩ := h
    have hfirst := calls_value v hv (.keyed members key :: below) rfl
    have hrest := calls_members ms hms (members ++ [(key, v)]) below
    rw [memberCalls, calls_cons, Build.call, Option.bind_some, calls_append, hfirst, place,
      Option.bind_some, hrest, List.append_assoc]
    rfl

end

end Build

/-- The calls of a value describe it. -/
theorem JsonCall.describes_calls {v : Value} (h : v.Fits) : JsonCall.describes v.calls v :=
  Build.calls_value v h [] rfl

/-! ## What is written is read back -/

/-- A writer of a document. -/
def JsonWriter.new (pretty : Bool) : JsonWriter := { pretty }

/-- The text of a document, when the calls are done. -/
theorem JsonWriter.out_of_describes (pretty : Bool) {calls : List JsonCall} {v : Value}
    (h : JsonCall.describes calls v) :
    ((JsonWriter.new pretty).calls calls).out =
      (Json.style pretty).gap 0 ++ render (Json.style pretty) 0 v := by
  have hstart : (JsonWriter.new pretty).Matches pretty (.parts []) := ⟨rfl, rfl, rfl, rfl, rfl⟩
  exact hstart.calls h

/-- The text of a document is read back. -/
theorem JsonWriter.read_out (pretty : Bool) {calls : List JsonCall} {v : Value}
    (h : JsonCall.describes calls v) :
    JsonText.read ((JsonWriter.new pretty).calls calls).out = some v := by
  rw [JsonWriter.out_of_describes pretty h]
  exact read_render (Json.style pretty) 0 ((Json.style pretty).gap_blank 0) v

/-- Whatever calls describe a document, its text, on one line or on many, is read back as the value
that the calls describe, and every value of numbers that fit 64 bits is described by some calls. -/
theorem documents_read_back :
    (∀ pretty calls v, JsonCall.describes calls v →
      JsonText.read ((JsonWriter.new pretty).calls calls).out = some v) ∧
    (∀ v : Value, v.Fits → ∃ calls, JsonCall.describes calls v) := by
  exact ⟨fun pretty calls v h => JsonWriter.read_out pretty h,
    fun v h => ⟨v.calls, JsonCall.describes_calls h⟩⟩

/-- A text that is full of what JSON is written with, in an object in an array. -/
theorem documents_read_back_nested :
    let v : Value := .array [.object [(bytesOf "a\"b", .text (bytesOf "\x7d,\n\"x\":1"))], .number (-7)]
    JsonText.read ((JsonWriter.new true).calls v.calls).out = some v := by
  obtain ⟨hread, -⟩ := documents_read_back
  refine hread true _ _ (JsonCall.describes_calls ?_)
  simp [Value.Fits, ElementsFit, MembersFit]

end Fcfn
