import Fcfn.Model.Topology
import Fcfn.Store.Pointer

/-!
# The topology file

The line-oriented text form of a topology: `writeTopologyFile` writes a definition, one directive a
line, and `parseTopologyFile` reads a description back. Lines and fields are split as the streams of
the source split them. What is written is read back as the description it was written from, as long
as its lines stay within the bound on lines (`parseTopologyFile_write`). -/

namespace Fcfn.ConfigText

open Words

def kMaxLines : ℕ := 200000
def kMaxLineLength : ℕ := 512

/-! ## Tokens and lines -/

/-- The characters that separate tokens. -/
def isSpace (c : UInt8) : Bool := c == byteOf ' ' || (9 ≤ c && c ≤ 13)

/-- A token before others, if it is one. -/
def consToken (word : Bytes) (words : List Bytes) : List Bytes :=
  if word = [] then words else word :: words

/-- The token that a text starts with, and those after it. -/
def splitFirst : Bytes → Bytes × List Bytes
  | [] => ([], [])
  | c :: text =>
    let (word, words) := splitFirst text
    if isSpace c then ([], consToken word words) else (c :: word, words)

/-- The tokens of a line. -/
def split (line : Bytes) : List Bytes := consToken (splitFirst line).1 (splitFirst line).2

/-- The lines of a text. What follows the last end of a line is one only if it is not empty. -/
def getLines : Bytes → List Bytes
  | [] => []
  | c :: text =>
    if c = byteOf '\n' then [] :: getLines text
    else
      match getLines text with
      | [] => [[c]]
      | line :: lines => (c :: line) :: lines

/-- Read lines after so many others, each up to a comment. -/
def readLinesFrom : ℕ → List Bytes → Result (List Bytes)
  | _, [] => return []
  | count, line :: lines => do
    require (line.length ≤ kMaxLineLength) .limitExceeded "configuration line exceeds the bound"
    require (count < kMaxLines) .limitExceeded "configuration file exceeds the line bound"
    let rest ← readLinesFrom (count + 1) lines
    return line.takeWhile (· ≠ byteOf '#') :: rest

/-- The lines of a file, if it can be opened. -/
def readLines : Option Bytes → Result (List Bytes)
  | none => fail .notFound "cannot open configuration file"
  | some text => readLinesFrom 0 (getLines text)

/-! ## Values -/

/-- Parse a number of at most twenty digits. One that does not fit in 64 bits wraps. -/
def parseNumber (text : Bytes) : Option UInt64 :=
  if text = [] ∨ text.length > 20 then none
  else if text.all fun c => byteOf '0' ≤ c && c ≤ byteOf '9' then
    some (text.foldl (fun value c => value * 10 + (c - byteOf '0').toUInt64) 0)
  else none

/-- Parse a flag. -/
def parseBool (text : Bytes) : Option Bool :=
  if text = bytesOf "1" ∨ text = bytesOf "true" ∨ text = bytesOf "yes" then some true
  else if text = bytesOf "0" ∨ text = bytesOf "false" ∨ text = bytesOf "no" then some false
  else none

/-- The text of an edge evidence class. -/
def evidenceToken : EdgeEvidence → Bytes
  | .proven => bytesOf "proven"
  | .unknown => bytesOf "unknown"
  | .refuted => bytesOf "refuted"

/-- The edge evidence class of a text. -/
def parseEdgeEvidence (token : Bytes) : Option EdgeEvidence :=
  [.proven, .unknown, .refuted].find? fun evidence => token == evidenceToken evidence

/-- The text of an adjacency completeness. -/
def completenessToken : AdjacencyCompleteness → Bytes
  | .complete => bytesOf "complete"
  | .partly => bytesOf "partial"
  | .unknown => bytesOf "unknown"

/-- The adjacency completeness of a text. -/
def parseAdjacencyCompleteness (token : Bytes) : Option AdjacencyCompleteness :=
  [.complete, .partly, .unknown].find? fun completeness => token == completenessToken completeness

/-- A value that must be there. -/
def expect {α : Type} (value : Option α) (message : String) : Result α :=
  match value with
  | none => fail .invalidArgument message
  | some a => .ok a

/-! ## Fields -/

/-- A field and its value. -/
abbrev Field := Bytes × Bytes

/-- The field that a token spells, if it has an equals sign. -/
def parseField (part : Bytes) : Option Field :=
  if byteOf '=' ∈ part then
    some (part.takeWhile (· ≠ byteOf '='), (part.dropWhile (· ≠ byteOf '=')).drop 1)
  else none

/-- A field is kept unless there is one of its name. -/
def emplace (fields : List Field) (field : Field) : List Field :=
  if fields.any fun other => other.1 == field.1 then fields else fields ++ [field]

/-- The fields of some tokens, the first of each name. The source visits them in no fixed order,
which decides no more than which of several errors is reported. -/
def parseFields (parts : List Bytes) : List Field :=
  (parts.filterMap parseField).foldl emplace []

/-! ## Directives -/

/-- One field of a node. -/
def parseNodeField (node : NodeSpec) (field : Field) : Result NodeSpec :=
  if field.1 = bytesOf "containable" then do
    let containable ← expect (parseBool field.2) "node containable flag is malformed"
    return { node with containable }
  else if field.1 = bytesOf "protected" then do
    let protected_obligation ← expect (parseBool field.2) "node protected flag is malformed"
    return { node with protected_obligation }
  else if field.1 = bytesOf "weight" then do
    let weight ← expect (parseNumber field.2) "node weight is malformed"
    return { node with weight }
  else if field.1 = bytesOf "completeness" then do
    let completeness ← expect (parseAdjacencyCompleteness field.2) "node completeness is malformed"
    return { node with completeness }
  else fail .invalidArgument "unknown node field"

/-- One field of an edge. -/
def parseEdgeField (edge : EdgeSpec) (field : Field) : Result EdgeSpec :=
  if field.1 = bytesOf "evidence" then do
    let evidence ← expect (parseEdgeEvidence field.2) "edge evidence is malformed"
    return { edge with evidence }
  else if field.1 = bytesOf "generation" then do
    let generation ← expect (parseNumber field.2) "edge generation is malformed"
    return { edge with generation }
  else fail .invalidArgument "unknown edge field"

/-- One line of a topology file. -/
def parseDirective (spec : TopologySpec) (parts : List Bytes) : Result TopologySpec :=
  match parts with
  | [] => return spec
  | directive :: arguments =>
    if directive = bytesOf "generation" ∧ arguments.length = 1 then do
      let generation ← expect (arguments.head?.bind parseNumber) "topology generation is malformed"
      return { spec with generation }
    else if directive = bytesOf "node" ∧ 1 ≤ arguments.length then do
      let id ← ResourceId.parse (arguments.headD [])
      let node ← (parseFields (arguments.drop 1)).foldlM parseNodeField
        ⟨id, false, 1, false, .complete⟩
      return { spec with nodes := spec.nodes ++ [node] }
    else if directive = bytesOf "edge" ∧ 2 ≤ arguments.length then do
      let from_ ← ResourceId.parse (arguments.headD [])
      let to_ ← ResourceId.parse ((arguments.drop 1).headD [])
      let edge ← (parseFields (arguments.drop 2)).foldlM parseEdgeField ⟨from_, to_, .unknown, 0⟩
      return { spec with
        edges := spec.edges ++ [{ edge with
          generation := if edge.generation = 0 then 1 else edge.generation }] }
    else fail .invalidArgument "unrecognised topology directive"

/-- Read the description in a topology file. -/
def parseTopologyFile (file : Option Bytes) : Result TopologySpec := do
  let lines ← readLines file
  (lines.map split).foldlM parseDirective ⟨0, [], []⟩

/-! ## Writing -/

/-- The text of a flag. -/
def flag (value : Bool) : Bytes := if value then bytesOf "1" else bytesOf "0"

/-- The line of a node. -/
def nodeLine (node : NodeSpec) : Bytes :=
  bytesOf "node " ++ node.id ++ bytesOf " containable=" ++ flag node.containable ++
    bytesOf " weight=" ++ toDecimal node.weight ++ bytesOf " protected=" ++
      flag node.protected_obligation ++ bytesOf " completeness=" ++
        completenessToken node.completeness

/-- The line of an edge. -/
def edgeLine (edge : EdgeSpec) : Bytes :=
  bytesOf "edge " ++ edge.from_ ++ bytesOf " " ++ edge.to_ ++ bytesOf " evidence=" ++
    evidenceToken edge.evidence ++ bytesOf " generation=" ++ toDecimal edge.generation

/-- The lines of a topology file: the generation, the nodes and the edges. -/
def topologyLines (topology : Topology) : List Bytes :=
  (bytesOf "generation " ++ toDecimal topology.generation) ::
    (topology.nodes.map nodeLine ++ topology.edges.map fun edge =>
      edgeLine ⟨(topology.node edge.from_).id, (topology.node edge.to_).id, edge.evidence,
        edge.generation⟩)

/-- What is written for a topology. -/
def writeTopologyFile (topology : Topology) : Bytes :=
  (topologyLines topology).flatMap fun line => line ++ [byteOf '\n']

/-! ## Words and lines are found again -/

/-- A token that no line splits and no comment cuts off. -/
structure IsWord (word : Bytes) : Prop where
  ne_nil : word ≠ []
  plain : ∀ c ∈ word, isSpace c = false ∧ c ≠ byteOf '#'

/-- Whether a text is a word is read off its characters. -/
theorem isWord_of_all {word : Bytes} (hne : word ≠ [])
    (hall : (word.all fun c => !isSpace c && c != byteOf '#') = true) : IsWord word where
  ne_nil := hne
  plain c hc := by
    have hplain := List.all_eq_true.mp hall c hc
    simpa using hplain

/-- Words with a blank between them. -/
def spaced : List Bytes → Bytes
  | [] => []
  | [word] => word
  | word :: words => word ++ byteOf ' ' :: spaced words

/-- The characters of a word go to the token they start. -/
theorem splitFirst_append {word : Bytes} (h : ∀ c ∈ word, isSpace c = false) (text : Bytes) :
    splitFirst (word ++ text) = (word ++ (splitFirst text).1, (splitFirst text).2) := by
  induction word with
  | nil => rfl
  | cons c word ih =>
    rw [List.cons_append, splitFirst, ih fun d hd => h d (by simp [hd])]
    simp only [h c (by simp), Bool.false_eq_true, if_false, List.cons_append]

/-- A blank ends a token. -/
theorem splitFirst_blank (text : Bytes) : splitFirst (byteOf ' ' :: text) = ([], split text) := by
  rw [splitFirst]
  simp only [show isSpace (byteOf ' ') = true by decide, if_true]
  rfl

/-- The tokens of words with blanks between them are the words. -/
theorem split_spaced {words : List Bytes} (h : ∀ word ∈ words, IsWord word) :
    split (spaced words) = words := by
  induction words with
  | nil => rfl
  | cons word words ih =>
    have hword := h word (by simp)
    have hplain : ∀ c ∈ word, isSpace c = false := fun c hc => (hword.plain c hc).1
    cases words with
    | nil =>
      have hsplit := splitFirst_append hplain []
      rw [List.append_nil] at hsplit
      rw [spaced, split, hsplit]
      simp [splitFirst, consToken, hword.ne_nil]
    | cons next words =>
      have hrest := ih fun other hother => h other (List.mem_cons_of_mem _ hother)
      rw [spaced, split, splitFirst_append hplain, splitFirst_blank, hrest]
      · simp [consToken, hword.ne_nil]
      · simp

/-- Words with blanks between them hold no comment and do not end a line. -/
theorem mem_spaced {words : List Bytes} (h : ∀ word ∈ words, IsWord word) {c : UInt8}
    (hc : c ∈ spaced words) : c ≠ byteOf '#' ∧ c ≠ byteOf '\n' := by
  have hend : isSpace (byteOf '\n') = true := by decide
  have hplain : ∀ word ∈ words, ∀ c ∈ word, c ≠ byteOf '#' ∧ c ≠ byteOf '\n' := by
    intro word hword c hc
    obtain ⟨hspace, hcomment⟩ := (h word hword).plain c hc
    refine ⟨hcomment, ?_⟩
    rintro rfl
    rw [hend] at hspace
    exact absurd hspace (by simp)
  induction words with
  | nil => exact absurd hc (by simp [spaced])
  | cons word words ih =>
    cases words with
    | nil => exact hplain word (by simp) c hc
    | cons next words =>
      rw [spaced, List.mem_append, List.mem_cons] at hc
      · rcases hc with hc | rfl | hc
        · exact hplain word (by simp) c hc
        · decide
        · exact ih (fun other hother => h other (List.mem_cons_of_mem _ hother)) hc fun other hother =>
            hplain other (List.mem_cons_of_mem _ hother)
      · simp

/-- A line is found before what follows it. -/
theorem getLines_append {line : Bytes} (h : byteOf '\n' ∉ line) (text : Bytes) :
    getLines (line ++ byteOf '\n' :: text) = line :: getLines text := by
  induction line with
  | nil => simp [getLines]
  | cons c line ih =>
    have hc : c ≠ byteOf '\n' := fun heq => h (by simp [heq])
    rw [List.cons_append, getLines, if_neg hc, ih fun hline => h (List.mem_cons_of_mem _ hline)]

/-- The lines that were written are found. -/
theorem getLines_flatMap {lines : List Bytes} (h : ∀ line ∈ lines, byteOf '\n' ∉ line) :
    getLines (lines.flatMap fun line => line ++ [byteOf '\n']) = lines := by
  induction lines with
  | nil => rfl
  | cons line lines ih =>
    rw [List.flatMap_cons, List.append_assoc, List.singleton_append, getLines_append (h line (by simp)),
      ih fun other hother => h other (by simp [hother])]

/-- Lines within the bounds and without a comment are read as they are, when there are not too
many. -/
theorem readLinesFrom_ok {lines : List Bytes} {count : ℕ}
    (h : ∀ line ∈ lines, line.length ≤ kMaxLineLength ∧ byteOf '#' ∉ line)
    (hcount : count + lines.length ≤ kMaxLines) : readLinesFrom count lines = .ok lines := by
  induction lines generalizing count with
  | nil => rfl
  | cons line lines ih =>
    obtain ⟨hlength, hcomment⟩ := h line (by simp)
    rw [List.length_cons] at hcount
    have hwhole : line.takeWhile (· ≠ byteOf '#') = line := by
      rw [List.takeWhile_eq_self_iff]
      intro c hc
      simp only [ne_eq, decide_not, Bool.not_eq_eq_eq_not, Bool.not_true, decide_eq_false_iff_not]
      rintro rfl
      exact hcomment hc
    rw [readLinesFrom, require_bind_eq_ok, require_bind_eq_ok, bind_eq_ok]
    refine ⟨by simpa using hlength, by simp; omega, lines, ?_, by rw [hwhole]; rfl⟩
    exact ih (fun other hother => h other (by simp [hother])) (by omega)

/-- Too many lines are refused. -/
theorem readLinesFrom_refused {lines : List Bytes} {count : ℕ} (hcount : count ≤ kMaxLines)
    (h : kMaxLines < count + lines.length) (result : List Bytes) :
    readLinesFrom count lines ≠ .ok result := by
  induction lines generalizing count result with
  | nil => exact absurd h (by simp; omega)
  | cons line lines ih =>
    rw [List.length_cons] at h
    rw [readLinesFrom, ne_eq, require_bind_eq_ok, require_bind_eq_ok, bind_eq_ok]
    rintro ⟨-, hroom, rest, hrest, -⟩
    have hlt : count < kMaxLines := by simpa using hroom
    exact ih (by omega) (by omega) rest hrest

/-! ## Values are read back -/

/-- The digits of a number, read one after the other in 64 bits. -/
theorem foldl_digits {text : List Char} (hdigits : ∀ c ∈ text, c.isDigit = true) (value : ℕ) :
    (text.map byteOf).foldl (fun value c => value * 10 + (c - byteOf '0').toUInt64)
        (UInt64.ofNat value) = UInt64.ofNat (Nat.ofDigitChars 10 text value) := by
  induction text generalizing value with
  | nil => simp
  | cons c text ih =>
    have hdigit := (digit_byteOf (hdigits c (by simp))).2
    have hstep : UInt64.ofNat value * 10 + (byteOf c - byteOf '0').toUInt64 =
        UInt64.ofNat (10 * value + (c.toNat - '0'.toNat)) := by
      have hbyte : (byteOf c - byteOf '0').toUInt64 = UInt64.ofNat (c.toNat - '0'.toNat) := by
        rw [← hdigit]
        exact (UInt64.ofNat_uInt8ToNat _).symm
      rw [hbyte, UInt64.ofNat_add, UInt64.ofNat_mul, UInt64.mul_comm]
      rfl
    rw [List.map_cons, List.foldl_cons, Nat.ofDigitChars_cons, hstep]
    exact ih (fun d hd => hdigits d (by simp [hd])) _

/-- The digits of a number are digits. -/
theorem mem_toDecimal_range {n : UInt64} {c : UInt8} (h : c ∈ toDecimal n) :
    byteOf '0' ≤ c ∧ c ≤ byteOf '9' := by
  obtain ⟨d, hd, rfl⟩ := List.mem_map.mp h
  have hrange := (digit_byteOf (Nat.isDigit_of_mem_toDigits (by decide) (by decide) hd)).1
  rw [not_or, UInt8.not_lt, UInt8.not_lt] at hrange
  exact hrange

/-- A number is read back. -/
theorem parseNumber_toDecimal (n : UInt64) : parseNumber (toDecimal n) = some n := by
  have hne : toDecimal n ≠ [] := by simp [toDecimal, Nat.toDigits_ne_nil]
  have hlength := length_toDecimal_le n
  have hall : ((toDecimal n).all fun c => byteOf '0' ≤ c && c ≤ byteOf '9') = true := by
    rw [List.all_eq_true]
    intro c hc
    simpa using mem_toDecimal_range hc
  have hdigits : ∀ c ∈ Nat.toDigits 10 n.toNat, c.isDigit = true :=
    fun c hc => Nat.isDigit_of_mem_toDigits (by decide) (by decide) hc
  have hfold := foldl_digits hdigits 0
  rw [Nat.ofDigitChars_ten_toDigits, UInt64.ofNat_toNat] at hfold
  rw [parseNumber, if_neg (by simp [hne, hlength]), if_pos hall]
  exact congrArg some hfold

/-- A flag is read back. -/
theorem parseBool_flag (value : Bool) : parseBool (flag value) = some value := by
  cases value <;> decide

/-- An edge evidence class is read back. -/
theorem parseEdgeEvidence_token (evidence : EdgeEvidence) :
    parseEdgeEvidence (evidenceToken evidence) = some evidence := by
  cases evidence <;> decide

/-- An adjacency completeness is read back. -/
theorem parseAdjacencyCompleteness_token (completeness : AdjacencyCompleteness) :
    parseAdjacencyCompleteness (completenessToken completeness) = some completeness := by
  cases completeness <;> decide

/-! ## Directives are read back -/

/-- The characters that a word may hold besides an equals sign. -/
theorem plain_of_allowed {c : UInt8} (h : isAllowedChar c = true) :
    isSpace c = false ∧ c ≠ byteOf '#' := by
  have hall : ∀ n < 256, isAllowedChar (UInt8.ofNat n) = true →
      isSpace (UInt8.ofNat n) = false ∧ UInt8.ofNat n ≠ byteOf '#' := by
    decide +kernel
  have hc := hall c.toNat c.toNat_lt
  rw [UInt8.ofNat_toNat] at hc
  exact hc h

/-- A text of allowed characters. -/
theorem mem_of_isAllowedText {text : Bytes} (h : isAllowedText text = true) :
    ∀ c ∈ text, isAllowedChar c = true := by
  induction text with
  | nil => simp
  | cons c text ih =>
    simp only [isAllowedText, Bool.and_eq_true] at h
    exact List.forall_mem_cons.mpr ⟨h.1.1, ih h.2⟩

/-- A canonical identity is a word. -/
theorem isWord_id {id : ResourceId} (h : isValidResourceId id = true) : IsWord id where
  ne_nil := (length_of_isValidResourceId h).1
  plain c hc := by
    simp only [isValidResourceId, Bool.and_eq_true] at h
    exact plain_of_allowed (mem_of_isAllowedText h.2 c hc)

/-- A number is a word. -/
theorem isWord_toDecimal (n : UInt64) : IsWord (toDecimal n) where
  ne_nil := by simp [toDecimal, Nat.toDigits_ne_nil]
  plain c hc := by
    obtain ⟨hlow, hhigh⟩ := mem_toDecimal_range hc
    exact plain_of_allowed (by simp [isAllowedChar, hlow, hhigh])

/-- A field as a token. -/
def fieldWord (name : String) (value : Bytes) : Bytes := bytesOf name ++ byteOf '=' :: value

/-- A field with a plain name and a plain value is a word. -/
theorem isWord_field {name : String} {value : Bytes}
    (hname : IsWord (bytesOf name)) (hvalue : IsWord value) :
    IsWord (fieldWord name value) where
  ne_nil := by simp [fieldWord]
  plain c hc := by
    rw [fieldWord, List.mem_append, List.mem_cons] at hc
    rcases hc with hc | rfl | hc
    · exact hname.plain c hc
    · decide
    · exact hvalue.plain c hc

/-- A field is found. -/
theorem parseField_word {name : String} (h : byteOf '=' ∉ bytesOf name) (value : Bytes) :
    parseField (fieldWord name value) = some (bytesOf name, value) := by
  have hname : ∀ c ∈ bytesOf name, (decide (c ≠ byteOf '=')) = true := by
    intro c hc
    rw [decide_eq_true_eq]
    rintro rfl
    exact h hc
  rw [parseField, fieldWord, if_pos (by simp), List.takeWhile_append_of_pos hname,
    List.dropWhile_append_of_pos hname]
  simp

/-- The words of the line of a node. -/
def nodeWords (node : NodeSpec) : List Bytes :=
  [bytesOf "node", node.id, fieldWord "containable" (flag node.containable),
    fieldWord "weight" (toDecimal node.weight),
    fieldWord "protected" (flag node.protected_obligation),
    fieldWord "completeness" (completenessToken node.completeness)]

/-- The words of the line of an edge. -/
def edgeWords (edge : EdgeSpec) : List Bytes :=
  [bytesOf "edge", edge.from_, edge.to_, fieldWord "evidence" (evidenceToken edge.evidence),
    fieldWord "generation" (toDecimal edge.generation)]

/-- The line of a node is its words with blanks between them. -/
theorem nodeLine_eq (node : NodeSpec) : nodeLine node = spaced (nodeWords node) := by
  have hnode : bytesOf "node " = bytesOf "node" ++ [byteOf ' '] := rfl
  have hcontainable : bytesOf " containable=" = byteOf ' ' :: (bytesOf "containable" ++ [byteOf '=']) := rfl
  have hweight : bytesOf " weight=" = byteOf ' ' :: (bytesOf "weight" ++ [byteOf '=']) := rfl
  have hprotected : bytesOf " protected=" = byteOf ' ' :: (bytesOf "protected" ++ [byteOf '=']) := rfl
  have hcompleteness : bytesOf " completeness=" = byteOf ' ' :: (bytesOf "completeness" ++ [byteOf '=']) := rfl
  simp only [nodeLine, nodeWords, fieldWord, spaced, hnode, hcontainable, hweight, hprotected, hcompleteness,
    List.append_assoc, List.cons_append, List.nil_append]

/-- The line of an edge is its words with blanks between them. -/
theorem edgeLine_eq (edge : EdgeSpec) : edgeLine edge = spaced (edgeWords edge) := by
  have hedge : bytesOf "edge " = bytesOf "edge" ++ [byteOf ' '] := rfl
  have hblank : bytesOf " " = [byteOf ' '] := rfl
  have hevidence : bytesOf " evidence=" = byteOf ' ' :: (bytesOf "evidence" ++ [byteOf '=']) := rfl
  have hgeneration : bytesOf " generation=" = byteOf ' ' :: (bytesOf "generation" ++ [byteOf '=']) := rfl
  simp only [edgeLine, edgeWords, fieldWord, spaced, hedge, hblank, hevidence, hgeneration,
    List.append_assoc, List.cons_append, List.nil_append]

/-- The text of a flag is a word. -/
theorem isWord_flag (value : Bool) : IsWord (flag value) := by
  cases value <;> exact isWord_of_all (by decide) (by decide)

/-- The words of the line of a node with a canonical identity. -/
theorem isWord_nodeWords {node : NodeSpec} (h : isValidResourceId node.id = true) :
    ∀ word ∈ nodeWords node, IsWord word := by
  have hcompleteness : IsWord (completenessToken node.completeness) := by
    cases node.completeness <;> exact isWord_of_all (by decide) (by decide)
  intro word hword
  simp only [nodeWords, List.mem_cons, List.not_mem_nil, or_false] at hword
  rcases hword with rfl | rfl | rfl | rfl | rfl | rfl
  · exact isWord_of_all (by decide) (by decide)
  · exact isWord_id h
  · exact isWord_field (isWord_of_all (by decide) (by decide)) (isWord_flag _)
  · exact isWord_field (isWord_of_all (by decide) (by decide)) (isWord_toDecimal _)
  · exact isWord_field (isWord_of_all (by decide) (by decide)) (isWord_flag _)
  · exact isWord_field (isWord_of_all (by decide) (by decide)) hcompleteness

/-- The words of the line of an edge between canonical identities. -/
theorem isWord_edgeWords {edge : EdgeSpec} (hfrom : isValidResourceId edge.from_ = true)
    (hto : isValidResourceId edge.to_ = true) : ∀ word ∈ edgeWords edge, IsWord word := by
  have hevidence : IsWord (evidenceToken edge.evidence) := by
    cases edge.evidence <;> exact isWord_of_all (by decide) (by decide)
  intro word hword
  simp only [edgeWords, List.mem_cons, List.not_mem_nil, or_false] at hword
  rcases hword with rfl | rfl | rfl | rfl | rfl
  · exact isWord_of_all (by decide) (by decide)
  · exact isWord_id hfrom
  · exact isWord_id hto
  · exact isWord_field (isWord_of_all (by decide) (by decide)) hevidence
  · exact isWord_field (isWord_of_all (by decide) (by decide)) (isWord_toDecimal _)

/-- A canonical identity is parsed. -/
theorem parse_valid {id : ResourceId} (h : isValidResourceId id = true) :
    ResourceId.parse id = .ok id := by
  rw [ResourceId.parse, h]
  rfl

/-- The directive of a node adds the node. -/
theorem parseDirective_node {node : NodeSpec} (h : isValidResourceId node.id = true)
    (spec : TopologySpec) :
    parseDirective spec (nodeWords node) = .ok { spec with nodes := spec.nodes ++ [node] } := by
  have hfields : parseFields [fieldWord "containable" (flag node.containable),
      fieldWord "weight" (toDecimal node.weight),
      fieldWord "protected" (flag node.protected_obligation),
      fieldWord "completeness" (completenessToken node.completeness)] =
        [(bytesOf "containable", flag node.containable), (bytesOf "weight", toDecimal node.weight),
          (bytesOf "protected", flag node.protected_obligation),
          (bytesOf "completeness", completenessToken node.completeness)] := by
    unfold parseFields
    rw [List.filterMap_cons_some (parseField_word (by decide) _),
      List.filterMap_cons_some (parseField_word (by decide) _),
      List.filterMap_cons_some (parseField_word (by decide) _),
      List.filterMap_cons_some (parseField_word (by decide) _), List.filterMap_nil]
    rfl
  have hloop : [(bytesOf "containable", flag node.containable),
      (bytesOf "weight", toDecimal node.weight),
      (bytesOf "protected", flag node.protected_obligation),
      (bytesOf "completeness", completenessToken node.completeness)].foldlM parseNodeField
        ⟨node.id, false, 1, false, .complete⟩ = .ok node := by
    simp only [List.foldlM_cons, List.foldlM_nil, parseNodeField, parseBool_flag,
      parseNumber_toDecimal, parseAdjacencyCompleteness_token, expect]
    rfl
  unfold parseDirective nodeWords
  simp only [List.drop_succ_cons, List.drop_zero, List.headD_cons, parse_valid h, hfields]
  rw [if_neg (not_and_of_not_left _ (by decide)), if_pos (by simp)]
  show ((_ : List Field).foldlM parseNodeField _ >>= fun node => _) = _
  rw [hloop]
  rfl

/-- The directive of an edge adds the edge. -/
theorem parseDirective_edge {edge : EdgeSpec} (hfrom : isValidResourceId edge.from_ = true)
    (hto : isValidResourceId edge.to_ = true) (hgeneration : edge.generation ≠ 0)
    (spec : TopologySpec) :
    parseDirective spec (edgeWords edge) = .ok { spec with edges := spec.edges ++ [edge] } := by
  have hfields : parseFields [fieldWord "evidence" (evidenceToken edge.evidence),
      fieldWord "generation" (toDecimal edge.generation)] =
        [(bytesOf "evidence", evidenceToken edge.evidence),
          (bytesOf "generation", toDecimal edge.generation)] := by
    unfold parseFields
    rw [List.filterMap_cons_some (parseField_word (by decide) _),
      List.filterMap_cons_some (parseField_word (by decide) _), List.filterMap_nil]
    rfl
  have hloop : [(bytesOf "evidence", evidenceToken edge.evidence),
      (bytesOf "generation", toDecimal edge.generation)].foldlM parseEdgeField
        ⟨edge.from_, edge.to_, .unknown, 0⟩ = .ok edge := by
    simp only [List.foldlM_cons, List.foldlM_nil, parseEdgeField, parseEdgeEvidence_token,
      parseNumber_toDecimal, expect]
    rfl
  unfold parseDirective edgeWords
  simp only [List.drop_succ_cons, List.drop_zero, List.headD_cons, parse_valid hfrom,
    parse_valid hto, hfields]
  rw [if_neg (not_and_of_not_left _ (by decide)), if_neg (not_and_of_not_left _ (by decide)),
    if_pos (by simp)]
  show ((_ : List Field).foldlM parseEdgeField _ >>= fun edge => _) = _
  rw [hloop]
  show Except.ok _ = _
  rw [if_neg hgeneration]

/-- The directive of the generation sets the generation. -/
theorem parseDirective_generation (generation : TopologyGeneration) (spec : TopologySpec) :
    parseDirective spec [bytesOf "generation", toDecimal generation] =
      .ok { spec with generation } := by
  unfold parseDirective
  simp only [List.head?_cons, Option.bind_some, parseNumber_toDecimal, expect]
  rw [if_pos (by simp)]
  rfl

/-! ## The file is read back -/

/-- The words of the lines of a topology file. -/
def topologyWords (spec : TopologySpec) : List (List Bytes) :=
  [bytesOf "generation", toDecimal spec.generation] ::
    (spec.nodes.map nodeWords ++ spec.edges.map edgeWords)

/-- The lines of a topology file are words with blanks between them. -/
theorem topologyLines_eq (topology : Topology) :
    topologyLines topology = (topologyWords topology.toSpec).map spaced := by
  have hgeneration : bytesOf "generation " = bytesOf "generation" ++ [byteOf ' '] := rfl
  have hnode : nodeLine = spaced ∘ nodeWords := funext nodeLine_eq
  simp only [topologyLines, topologyWords, Topology.toSpec, List.map_cons, List.map_append,
    List.map_map, hnode, hgeneration, edgeLine_eq]
  simp only [spaced, Function.comp_def, List.append_assoc, List.singleton_append]

/-- A description of canonical identities, with generations. -/
structure Writable (spec : TopologySpec) : Prop where
  nodes : ∀ node ∈ spec.nodes, isValidResourceId node.id = true
  edges : ∀ edge ∈ spec.edges, isValidResourceId edge.from_ = true ∧
    isValidResourceId edge.to_ = true ∧ edge.generation ≠ 0

/-- The description of a topology can be written. -/
theorem writable_toSpec (topology : Topology) : Writable topology.toSpec where
  nodes node hnode := (topology.valid.nodes_valid node hnode).canonical
  edges edge hedge := by
    obtain ⟨e, he, rfl⟩ := List.mem_map.mp hedge
    have hvalid := topology.valid.edges_valid e he
    exact ⟨(topology.node_valid hvalid.from_lt).canonical,
      (topology.node_valid hvalid.to_lt).canonical, hvalid.generation_ne_zero⟩

/-- The words of a file are words. -/
theorem isWord_topologyWords {spec : TopologySpec} (h : Writable spec) :
    ∀ words ∈ topologyWords spec, ∀ word ∈ words, IsWord word := by
  intro words hwords
  rw [topologyWords, List.mem_cons, List.mem_append, List.mem_map, List.mem_map] at hwords
  rcases hwords with rfl | ⟨node, hnode, rfl⟩ | ⟨edge, hedge, rfl⟩
  · exact List.forall_mem_cons.mpr ⟨isWord_of_all (by decide) (by decide),
      List.forall_mem_cons.mpr ⟨isWord_toDecimal _, by simp⟩⟩
  · exact isWord_nodeWords (h.nodes node hnode)
  · obtain ⟨hfrom, hto, -⟩ := h.edges edge hedge
    exact isWord_edgeWords hfrom hto

/-- The lines of a file are within the bound. -/
theorem length_topologyWords {spec : TopologySpec} (h : Writable spec) :
    ∀ words ∈ topologyWords spec, (spaced words).length ≤ kMaxLineLength := by
  have hid : ∀ {id : ResourceId}, isValidResourceId id = true → id.length ≤ 63 := fun hid =>
    (length_of_isValidResourceId hid).2
  have hflag : ∀ value : Bool, (flag value).length = 1 := by decide
  intro words hwords
  rw [topologyWords, List.mem_cons, List.mem_append, List.mem_map, List.mem_map] at hwords
  rcases hwords with rfl | ⟨node, hnode, rfl⟩ | ⟨edge, hedge, rfl⟩
  · have hnumber := length_toDecimal_le spec.generation
    have hname : (bytesOf "generation").length = 10 := rfl
    simp only [spaced, List.length_append, List.length_cons, hname, kMaxLineLength]
    omega
  · have hnumber := length_toDecimal_le node.weight
    have hnodeId := hid (h.nodes node hnode)
    have hcompleteness : (completenessToken node.completeness).length ≤ 8 := by
      cases node.completeness <;> decide
    have hnames : (bytesOf "node").length = 4 ∧ (bytesOf "containable").length = 11 ∧
        (bytesOf "weight").length = 6 ∧ (bytesOf "protected").length = 9 ∧
          (bytesOf "completeness").length = 12 := ⟨rfl, rfl, rfl, rfl, rfl⟩
    simp only [nodeWords, spaced, fieldWord, List.length_append, List.length_cons, hnames, hflag,
      kMaxLineLength]
    omega
  · obtain ⟨hfrom, hto, -⟩ := h.edges edge hedge
    have hnumber := length_toDecimal_le edge.generation
    have hfromId := hid hfrom
    have htoId := hid hto
    have hevidence : (evidenceToken edge.evidence).length ≤ 7 := by
      cases edge.evidence <;> decide
    have hnames : (bytesOf "edge").length = 4 ∧ (bytesOf "evidence").length = 8 ∧
        (bytesOf "generation").length = 10 := ⟨rfl, rfl, rfl⟩
    simp only [edgeWords, spaced, fieldWord, List.length_append, List.length_cons, hnames,
      kMaxLineLength]
    omega

/-- The directives of nodes add the nodes. -/
theorem foldlM_nodes {nodes : List NodeSpec} (h : ∀ node ∈ nodes, isValidResourceId node.id = true)
    (spec : TopologySpec) :
    (nodes.map nodeWords).foldlM parseDirective spec =
      .ok { spec with nodes := spec.nodes ++ nodes } := by
  induction nodes generalizing spec with
  | nil => simp [pure, Except.pure]
  | cons node nodes ih =>
    rw [List.map_cons, List.foldlM_cons, parseDirective_node (h node (by simp))]
    show (nodes.map nodeWords).foldlM parseDirective _ = _
    rw [ih fun other hother => h other (by simp [hother])]
    simp

/-- The directives of edges add the edges. -/
theorem foldlM_edges {edges : List EdgeSpec} (h : ∀ edge ∈ edges, isValidResourceId edge.from_ = true ∧
    isValidResourceId edge.to_ = true ∧ edge.generation ≠ 0) (spec : TopologySpec) :
    (edges.map edgeWords).foldlM parseDirective spec =
      .ok { spec with edges := spec.edges ++ edges } := by
  induction edges generalizing spec with
  | nil => simp [pure, Except.pure]
  | cons edge edges ih =>
    obtain ⟨hfrom, hto, hgeneration⟩ := h edge (by simp)
    rw [List.map_cons, List.foldlM_cons, parseDirective_edge hfrom hto hgeneration]
    show (edges.map edgeWords).foldlM parseDirective _ = _
    rw [ih fun other hother => h other (by simp [hother])]
    simp

/-- The directives of a file give the description it was written from. -/
theorem foldlM_topologyWords {spec : TopologySpec} (h : Writable spec) :
    (topologyWords spec).foldlM parseDirective ⟨0, [], []⟩ = .ok spec := by
  rw [topologyWords, List.foldlM_cons, parseDirective_generation]
  show (spec.nodes.map nodeWords ++ spec.edges.map edgeWords).foldlM parseDirective _ = _
  rw [List.foldlM_append, foldlM_nodes h.nodes]
  show (spec.edges.map edgeWords).foldlM parseDirective _ = _
  rw [foldlM_edges h.edges]
  rfl

/-- A topology file is read back exactly if it has no more lines than the bound: it gives the
description it was written from. -/
theorem parseTopologyFile_write (topology : Topology) (spec : TopologySpec) :
    parseTopologyFile (some (writeTopologyFile topology)) = .ok spec ↔
      1 + topology.nodes.length + topology.edges.length ≤ kMaxLines ∧ spec = topology.toSpec := by
  have hwritable := writable_toSpec topology
  have hlines := topologyLines_eq topology
  have hplain : ∀ line ∈ topologyLines topology, line.length ≤ kMaxLineLength ∧
      byteOf '#' ∉ line ∧ byteOf '\n' ∉ line := by
    rw [hlines]
    intro line hline
    obtain ⟨words, hwords, rfl⟩ := List.mem_map.mp hline
    have hword := isWord_topologyWords hwritable words hwords
    exact ⟨length_topologyWords hwritable words hwords, fun hc => (mem_spaced hword hc).1 rfl,
      fun hc => (mem_spaced hword hc).2 rfl⟩
  have hcount : (topologyLines topology).length =
      1 + topology.nodes.length + topology.edges.length := by
    simp only [topologyLines, List.length_cons, List.length_append, List.length_map]
    omega
  have hsplit : (topologyLines topology).map split = topologyWords topology.toSpec := by
    rw [hlines, List.map_map]
    refine (List.map_congr_left fun words hwords => ?_).trans (List.map_id _)
    exact split_spaced (isWord_topologyWords hwritable words hwords)
  have hread : parseTopologyFile (some (writeTopologyFile topology)) =
      readLinesFrom 0 (topologyLines topology) >>= fun lines =>
        (lines.map split).foldlM parseDirective ⟨0, [], []⟩ := by
    rw [parseTopologyFile, readLines, writeTopologyFile,
      getLines_flatMap fun line hline => (hplain line hline).2.2]
  rw [hread, ← hcount]
  by_cases hfits : (topologyLines topology).length ≤ kMaxLines
  · rw [readLinesFrom_ok (fun line hline => ⟨(hplain line hline).1, (hplain line hline).2.1⟩)
      (by omega)]
    show ((topologyLines topology).map split).foldlM parseDirective _ = _ ↔ _
    rw [hsplit, foldlM_topologyWords hwritable]
    simp only [Except.ok.injEq, hfits, true_and, eq_comm]
  · refine iff_of_false (fun hok => ?_) fun hall => hfits hall.1
    obtain ⟨lines, hok, -⟩ := bind_eq_ok.mp hok
    exact readLinesFrom_refused (by decide) (by omega) lines hok

/-- The topology file of a topology is read back, and builds one with its digest. -/
def RoundTrips (topology : Topology) : Prop :=
  ∃ spec topology', parseTopologyFile (some (writeTopologyFile topology)) = .ok spec ∧
    Topology.build spec = .ok topology' ∧ topology'.definitionDigest = topology.definitionDigest

/-- A topology is written and read back exactly if its nodes and edges, and one line more, are no
more than the lines that a configuration file may have. -/
theorem roundTrips_iff (topology : Topology) :
    RoundTrips topology ↔ 1 + topology.nodes.length + topology.edges.length ≤ kMaxLines := by
  constructor
  · rintro ⟨spec, topology', hparse, -⟩
    exact ((parseTopologyFile_write topology spec).mp hparse).1
  · intro hfits
    exact ⟨topology.toSpec, topology, (parseTopologyFile_write topology _).mpr ⟨hfits, rfl⟩,
      topology.build_toSpec, rfl⟩

/-- What was built from a description is written and read back, exactly if its nodes and edges, and
one line more, are no more than the lines that a configuration file may have. -/
theorem topology_file_round_trip (spec : TopologySpec) (topology : Topology)
    (_ : Topology.build spec = .ok topology) :
    RoundTrips topology ↔ 1 + topology.nodes.length + topology.edges.length ≤ kMaxLines :=
  roundTrips_iff topology

/-! ## A definition that is not read back -/

/-- The digit of a number below ten. -/
def digit (n : ℕ) : UInt8 := UInt8.ofNat (48 + n % 10)

/-- The identity of a number of three digits. -/
def numberedId (n : ℕ) : ResourceId := [digit (n / 100), digit (n / 10), digit n]

/-- Two sets of `n` nodes, and an edge from each of the first to each of the second. -/
def halves (n : ℕ) : TopologyDef where
  generation := 1
  nodes := (List.range (n + n)).map fun i => ⟨numberedId i, true, 1, false, .complete⟩
  edges := (List.range n).flatMap fun i => (List.range n).map fun j => ⟨i, n + j, .proven, 1⟩

theorem toNat_digit (n : ℕ) : (digit n).toNat = 48 + n % 10 := by
  rw [digit, UInt8.toNat_ofNat']
  omega

/-- An identity of three digits is canonical. -/
theorem numberedId_valid (n : ℕ) : isValidResourceId (numberedId n) = true := by
  have hall : ∀ a < 10, ∀ b < 10, ∀ c < 10,
      isValidResourceId [UInt8.ofNat (48 + a), UInt8.ofNat (48 + b), UInt8.ofNat (48 + c)] = true := by
    decide +kernel
  exact hall _ (Nat.mod_lt _ (by decide)) _ (Nat.mod_lt _ (by decide)) _ (Nat.mod_lt _ (by decide))

/-- The identities of three digits ascend. -/
theorem numberedId_lt {i j : ℕ} (hij : i < j) (hj : j < 1000) : numberedId i < numberedId j := by
  have hdigit : ∀ m n, digit m = digit n ↔ m % 10 = n % 10 := by
    intro m n
    rw [← UInt8.toNat_inj, toNat_digit, toNat_digit]
    omega
  simp only [numberedId, List.cons_lt_cons_iff, UInt8.lt_iff_toNat_lt, toNat_digit, hdigit,
    List.not_lt_nil, and_false, or_false]
  omega

/-- The counts of the halves. -/
theorem halves_counts (n : ℕ) :
    (halves n).nodes.length = n + n ∧ (halves n).edges.length = n * n := by
  simp [halves, List.length_flatMap, List.map_const']

/-- The edges between the halves ascend. -/
theorem halves_edges_ascending (n : ℕ) : Sorted.Ascending Edge.key (halves n).edges := by
  rw [Sorted.Ascending, List.pairwise_map]
  refine List.pairwise_flatMap.mpr ⟨fun i _ => ?_, ?_⟩
  · refine List.pairwise_map.mpr (List.pairwise_lt_range.imp fun hlt => ?_)
    exact Prod.Lex.toLex_lt_toLex.mpr (Or.inr ⟨rfl, by simpa using hlt⟩)
  · refine List.pairwise_lt_range.imp fun hlt => ?_
    intro e he e' he'
    obtain ⟨j, -, rfl⟩ := List.mem_map.mp he
    obtain ⟨j', -, rfl⟩ := List.mem_map.mp he'
    exact Prod.Lex.toLex_lt_toLex.mpr (Or.inl hlt)

/-- The definition of halves of five hundred nodes at most is accepted. -/
theorem halves_valid {n : ℕ} (hpos : 0 < n) (hn : n ≤ 500) : (halves n).Valid where
  generation_ne_zero := show (1 : UInt64) ≠ 0 by decide
  nodes_ne_nil := by
    intro hnil
    have hcount := (halves_counts n).1
    rw [hnil, List.length_nil] at hcount
    omega
  nodes_le := by
    rw [(halves_counts n).1, kMaxTopologyNodes]
    omega
  edges_le := by
    have hsquare := Nat.mul_le_mul hn hn
    rw [(halves_counts n).2, kMaxTopologyEdges]
    omega
  nodes_valid node hnode := by
    obtain ⟨i, -, rfl⟩ := List.mem_map.mp hnode
    exact ⟨numberedId_valid i, show (1 : UInt64) ≠ 0 by decide,
      show (1 : UInt64).toNat ≤ kMaxNodeWeight by decide, by simp⟩
  nodes_ascending := by
    rw [Sorted.Ascending, halves, List.map_map, List.pairwise_map]
    refine List.pairwise_iff_getElem.mpr fun i j hi hj hij => ?_
    rw [List.length_range] at hj
    simpa using numberedId_lt hij (by omega)
  edges_valid e he := by
    rw [(halves_counts n).1]
    obtain ⟨i, hi, he⟩ := List.mem_flatMap.mp he
    obtain ⟨j, hj, rfl⟩ := List.mem_map.mp he
    rw [List.mem_range] at hi hj
    exact ⟨Nat.lt_add_right n hi, Nat.add_lt_add_left hj n, Nat.ne_of_lt (Nat.lt_add_right j hi),
      show (1 : UInt64) ≠ 0 by decide⟩
  edges_ascending := halves_edges_ascending n

theorem topology_file_round_trip_pair :
    RoundTrips ⟨halves 1, halves_valid (by decide) (by decide)⟩ ↔ 1 + 2 + 1 ≤ kMaxLines :=
  topology_file_round_trip (Topology.toSpec ⟨halves 1, halves_valid (by decide) (by decide)⟩)
    ⟨halves 1, halves_valid (by decide) (by decide)⟩ (Topology.build_toSpec _)

/-- Two halves of five hundred nodes are within the bounds on nodes and edges, and their file is not
read back. -/
theorem halves_not_read_back :
    ∃ topology : Topology, topology.toTopologyDef = halves 500 ∧
      Topology.build topology.toSpec = .ok topology ∧ ¬ RoundTrips topology := by
  refine ⟨⟨halves 500, halves_valid (by decide) (by decide)⟩, rfl, Topology.build_toSpec _, ?_⟩
  rw [roundTrips_iff, (halves_counts 500).1, (halves_counts 500).2]
  decide

end Fcfn.ConfigText
