import Fcfn.Lib.Words
import Mathlib.Data.List.Basic
import Mathlib.Data.Nat.Digits.Defs

/-!
# JSON texts

Values, a reader of their texts, and the texts that a `Style` of writing gives them: what stands
between the tokens and how texts are quoted. A style carries the proof that its quoted texts are read
back and that it puts nothing but blanks between tokens; the reader then reads every value back from
its text in every style (`read_render`). Numbers are integers, and texts are strings of bytes. -/

namespace Fcfn.JsonText

open Words (Bytes)

/-! ## Values and their reader -/

inductive Value
  | null
  | flag (b : Bool)
  | number (n : ℤ)
  | text (bytes : Bytes)
  | array (elements : List Value)
  | object (members : List (Bytes × Value))

/-- Blanks, tabs and ends of lines. -/
def isBlank (c : UInt8) : Bool := c = 0x20 || c = 0x09 || c = 0x0a || c = 0x0d

/-- The bytes from the first that is no blank. -/
def skip (bytes : Bytes) : Bytes := bytes.dropWhile isBlank

/-- The byte for which a letter stands after a backslash. -/
def unescape (c : UInt8) : Option UInt8 :=
  if c = 0x22 then some 0x22
  else if c = 0x5c then some 0x5c
  else if c = 0x2f then some 0x2f
  else if c = 0x62 then some 0x08
  else if c = 0x66 then some 0x0c
  else if c = 0x6e then some 0x0a
  else if c = 0x72 then some 0x0d
  else if c = 0x74 then some 0x09
  else none

/-- The value of a hexadecimal digit. -/
def hexValue (c : UInt8) : Option ℕ :=
  if 0x30 ≤ c ∧ c ≤ 0x39 then some (c.toNat - 0x30)
  else if 0x61 ≤ c ∧ c ≤ 0x66 then some (c.toNat - 0x57)
  else if 0x41 ≤ c ∧ c ≤ 0x46 then some (c.toNat - 0x37)
  else none

/-- The byte of a code of four hexadecimal digits. Codes of more than one byte are not read. -/
def readCode (a b c d : UInt8) : Option UInt8 := do
  let code := (((← hexValue a) * 16 + (← hexValue b)) * 16 + (← hexValue c)) * 16 + (← hexValue d)
  if code < 0x80 then some code.toUInt8 else none

/-- The text up to the closing quote, and what follows it. -/
def readChars : Bytes → Option (Bytes × Bytes)
  | [] => none
  | c :: rest =>
    if c = 0x22 then some ([], rest)
    else if c = 0x5c then
      match rest with
      | [] => none
      | e :: rest =>
        if e = 0x75 then
          match rest with
          | h₃ :: h₂ :: h₁ :: h₀ :: rest => do
            let byte ← readCode h₃ h₂ h₁ h₀
            let (text, rest) ← readChars rest
            some (byte :: text, rest)
          | _ => none
        else do
          let byte ← unescape e
          let (text, rest) ← readChars rest
          some (byte :: text, rest)
    else if c < 0x20 then none
    else do
      let (text, rest) ← readChars rest
      some (c :: text, rest)

/-- A decimal digit. -/
def isDigit (c : UInt8) : Bool := 0x30 ≤ c && c ≤ 0x39

/-- The value of decimal digits. -/
def ofDigits (digits : Bytes) : ℕ := digits.foldl (fun n c => n * 10 + (c.toNat - 0x30)) 0

/-- The digits at the front, without a needless zero. -/
def readDigits (bytes : Bytes) : Option (ℕ × Bytes) :=
  let digits := bytes.takeWhile isDigit
  if digits = [] ∨ digits.head? = some 0x30 ∧ digits.length ≠ 1 then none
  else some (ofDigits digits, bytes.dropWhile isDigit)

def readNumber : Bytes → Option (ℤ × Bytes)
  | [] => none
  | c :: rest =>
    if c = 0x2d then (readDigits rest).map fun found => (-found.1, found.2)
    else (readDigits (c :: rest)).map fun found => (found.1, found.2)

/-- The words of a text. -/
def words : List (Bytes × Value) :=
  [([0x6e, 0x75, 0x6c, 0x6c], .null), ([0x74, 0x72, 0x75, 0x65], .flag true),
    ([0x66, 0x61, 0x6c, 0x73, 0x65], .flag false)]

/-- The word at the front. -/
def readWord (bytes : Bytes) : Option (Value × Bytes) :=
  (words.find? fun word => word.1.isPrefixOf bytes).map fun word =>
    (word.2, bytes.drop word.1.length)

mutual

/-- The value at the front of some bytes, and what follows it. -/
def readValue : ℕ → Bytes → Option (Value × Bytes)
  | 0, _ => none
  | n + 1, bytes =>
    match skip bytes with
    | [] => none
    | c :: rest =>
      if c = 0x22 then (readChars rest).map fun found => (.text found.1, found.2)
      else if c = 0x5b then
        match skip rest with
        | 0x5d :: after => some (.array [], after)
        | _ => (readElements n rest).map fun found => (.array found.1, found.2)
      else if c = 0x7b then
        match skip rest with
        | 0x7d :: after => some (.object [], after)
        | _ => (readMembers n rest).map fun found => (.object found.1, found.2)
      else
        match readWord (c :: rest) with
        | some found => some found
        | none => (readNumber (c :: rest)).map fun found => (.number found.1, found.2)

/-- The elements up to the closing bracket. -/
def readElements : ℕ → Bytes → Option (List Value × Bytes)
  | 0, _ => none
  | n + 1, bytes => do
    let (v, rest) ← readValue n bytes
    match skip rest with
    | 0x2c :: rest =>
      let (others, rest) ← readElements n rest
      some (v :: others, rest)
    | 0x5d :: rest => some ([v], rest)
    | _ => none

/-- The members up to the closing brace. -/
def readMembers : ℕ → Bytes → Option (List (Bytes × Value) × Bytes)
  | 0, _ => none
  | n + 1, bytes =>
    match skip bytes with
    | 0x22 :: rest => do
      let (key, rest) ← readChars rest
      match skip rest with
      | 0x3a :: rest =>
        let (v, rest) ← readValue n rest
        match skip rest with
        | 0x2c :: rest =>
          let (others, rest) ← readMembers n rest
          some ((key, v) :: others, rest)
        | 0x7d :: rest => some ([(key, v)], rest)
        | _ => none
      | _ => none
    | _ => none

end

/-- The value of a text. -/
def read (text : Bytes) : Option Value :=
  match readValue (text.length + 1) text with
  | some (v, rest) => if skip rest = [] then some v else none
  | none => none

/-! ## Texts -/

/-- How values are written. -/
structure Style where
  /-- What stands before an element, a member or a closing bracket, by its depth. -/
  gap : ℕ → Bytes
  /-- What stands after a colon. -/
  colon : Bytes
  quote : Bytes → Bytes
  gap_blank : ∀ depth, ∀ c ∈ gap depth, isBlank c = true
  colon_blank : ∀ c ∈ colon, isBlank c = true
  quote_read : ∀ text rest, ∃ body, quote text = 0x22 :: body ∧
    readChars (body ++ rest) = some (text, rest)

/-- A natural number in decimal. -/
def decimal (n : ℕ) : Bytes := (Nat.toDigits 10 n).map fun c => c.toNat.toUInt8

/-- An integer in decimal. -/
def integer : ℤ → Bytes
  | .ofNat n => decimal n
  | .negSucc n => 0x2d :: decimal (n + 1)

mutual

/-- The text of a value at some depth. -/
def render (style : Style) (depth : ℕ) : Value → Bytes
  | .null => [0x6e, 0x75, 0x6c, 0x6c]
  | .flag true => [0x74, 0x72, 0x75, 0x65]
  | .flag false => [0x66, 0x61, 0x6c, 0x73, 0x65]
  | .number n => integer n
  | .text bytes => style.quote bytes
  | .array elements => 0x5b :: (renderElements style (depth + 1) elements ++
      (if elements.isEmpty then [] else style.gap depth) ++ [0x5d])
  | .object members => 0x7b :: (renderMembers style (depth + 1) members ++
      (if members.isEmpty then [] else style.gap depth) ++ [0x7d])

/-- The text of elements. -/
def renderElements (style : Style) (depth : ℕ) : List Value → Bytes
  | [] => []
  | v :: rest => style.gap depth ++ render style depth v ++
      (if rest.isEmpty then [] else 0x2c :: renderElements style depth rest)

/-- The text of members. -/
def renderMembers (style : Style) (depth : ℕ) : List (Bytes × Value) → Bytes
  | [] => []
  | (key, v) :: rest => style.gap depth ++ style.quote key ++ 0x3a :: style.colon ++
      render style depth v ++
      (if rest.isEmpty then [] else 0x2c :: renderMembers style depth rest)

end

/-- Without fuel nothing is read. -/
example (bytes : Bytes) :
    readValue 0 bytes = none ∧ readElements 0 bytes = none ∧ readMembers 0 bytes = none := by
  unfold readValue readElements readMembers
  exact ⟨rfl, rfl, rfl⟩

/-- Nothing is written for no elements and no members. -/
example (style : Style) (depth : ℕ) :
    renderElements style depth [] = [] ∧ renderMembers style depth [] = [] := by
  unfold renderElements renderMembers
  exact ⟨rfl, rfl⟩

/-- An element more. -/
theorem renderElements_concat (style : Style) (depth : ℕ) (vs : List Value) (v : Value) :
    renderElements style depth (vs ++ [v]) = renderElements style depth vs ++
      ((if vs.isEmpty then [] else [0x2c]) ++ style.gap depth) ++ render style depth v := by
  induction vs with
  | nil => simp [renderElements]
  | cons w vs ih =>
    cases vs with
    | nil => simp [renderElements]
    | cons u vs =>
      simp only [List.cons_append, List.isEmpty_cons, Bool.false_eq_true, if_false,
        List.nil_append] at ih ⊢
      rw [renderElements, ih, renderElements.eq_def style depth (w :: u :: vs)]
      simp

/-- A member more. -/
theorem renderMembers_concat (style : Style) (depth : ℕ) (ms : List (Bytes × Value)) (key : Bytes)
    (v : Value) :
    renderMembers style depth (ms ++ [(key, v)]) = renderMembers style depth ms ++
      ((if ms.isEmpty then [] else [0x2c]) ++ style.gap depth ++ style.quote key ++
        0x3a :: style.colon) ++ render style depth v := by
  induction ms with
  | nil => simp [renderMembers]
  | cons m ms ih =>
    cases ms with
    | nil => simp [renderMembers]
    | cons m' ms =>
      simp only [List.cons_append, List.isEmpty_cons, Bool.false_eq_true, if_false,
        List.nil_append] at ih ⊢
      rw [renderMembers, ih, renderMembers.eq_def style depth (m :: m' :: ms)]
      simp

/-! ## Reading texts back -/

theorem skip_append {blanks : Bytes} (h : ∀ c ∈ blanks, isBlank c = true) (bytes : Bytes) :
    skip (blanks ++ bytes) = skip bytes := by
  unfold skip
  rw [List.dropWhile_append_of_pos h]

theorem skip_cons {c : UInt8} (h : isBlank c = false) (bytes : Bytes) :
    skip (c :: bytes) = c :: bytes := by
  unfold skip
  rw [List.dropWhile_cons_of_neg (by simp [h])]

theorem readValue_append {blanks : Bytes} (h : ∀ c ∈ blanks, isBlank c = true) (n : ℕ)
    (bytes : Bytes) : readValue n (blanks ++ bytes) = readValue n bytes := by
  cases n with
  | zero => rfl
  | succ n =>
    unfold readValue
    rw [skip_append h]

theorem readElements_append {blanks : Bytes} (h : ∀ c ∈ blanks, isBlank c = true) (n : ℕ)
    (bytes : Bytes) : readElements n (blanks ++ bytes) = readElements n bytes := by
  cases n with
  | zero => rfl
  | succ n =>
    unfold readElements
    rw [readValue_append h]

theorem readMembers_append {blanks : Bytes} (h : ∀ c ∈ blanks, isBlank c = true) (n : ℕ)
    (bytes : Bytes) : readMembers n (blanks ++ bytes) = readMembers n bytes := by
  cases n with
  | zero => rfl
  | succ n =>
    unfold readMembers
    rw [skip_append h]

/-! ### Numbers -/

/-- Nothing that would lengthen a number follows. -/
def Stops (rest : Bytes) : Prop := ∀ c ∈ rest.head?, isDigit c = false

theorem stops_cons {c : UInt8} (h : isDigit c = false) (rest : Bytes) : Stops (c :: rest) := by
  intro d hd
  rw [List.head?_cons, Option.mem_some_iff] at hd
  rw [← hd, h]

/-- A blank is no digit. -/
theorem stops_append {blanks : Bytes} (h : ∀ c ∈ blanks, isBlank c = true) {rest : Bytes}
    (hrest : Stops rest) : Stops (blanks ++ rest) := by
  cases blanks with
  | nil => exact hrest
  | cons c blanks =>
    have hblank := h c List.mem_cons_self
    have hnone : ∀ c : UInt8, isBlank c = true → isDigit c = false := by
      unfold isBlank isDigit
      intro c hc
      simp only [Bool.or_eq_true, decide_eq_true_eq] at hc
      rcases hc with ((rfl | rfl) | rfl) | rfl <;> rfl
    exact stops_cons (hnone c hblank) _

/-- The byte of a decimal digit. -/
theorem isDigit_of_mem_decimal {n : ℕ} {c : UInt8} (h : c ∈ decimal n) : isDigit c = true := by
  obtain ⟨d, hd, rfl⟩ := List.mem_map.mp h
  have hdigit := Nat.isDigit_of_mem_toDigits (by decide) (by decide) hd
  have hrange : 48 ≤ d.toNat ∧ d.toNat < 58 := by
    simp only [Char.isDigit, Bool.and_eq_true, decide_eq_true_eq, ge_iff_le,
      UInt32.le_iff_toNat_le] at hdigit
    exact ⟨hdigit.1, Nat.lt_succ_of_le hdigit.2⟩
  have hbytes : ∀ k < 58, 48 ≤ k → isDigit k.toUInt8 = true := by decide
  exact hbytes d.toNat hrange.2 hrange.1

/-- Digits have the value of the number that they were written for. -/
theorem ofDigits_decimal (n : ℕ) : ofDigits (decimal n) = n := by
  have hfold : ∀ (digits : List Char) (value : ℕ), (∀ c ∈ digits, c.isDigit = true) →
      (digits.map fun c => c.toNat.toUInt8).foldl (fun n c => n * 10 + (c.toNat - 0x30)) value =
        Nat.ofDigitChars 10 digits value := by
    intro digits
    induction digits with
    | nil =>
      intro value _
      rfl
    | cons c digits ih =>
      intro value hdigits
      have hdigit := hdigits c List.mem_cons_self
      have hrange : c.toNat < 58 := by
        simp only [Char.isDigit, Bool.and_eq_true, decide_eq_true_eq, ge_iff_le,
          UInt32.le_iff_toNat_le] at hdigit
        exact Nat.lt_succ_of_le hdigit.2
      have hbyte : c.toNat.toUInt8.toNat = c.toNat := by
        rw [Nat.toUInt8_eq, UInt8.toNat_ofNat']
        omega
      rw [List.map_cons, List.foldl_cons, ih _ fun d hd => hdigits d (List.mem_cons_of_mem _ hd),
        Nat.ofDigitChars_cons, hbyte, mul_comm value 10]
      rfl
  unfold ofDigits decimal
  rw [hfold _ _ fun c hc => Nat.isDigit_of_mem_toDigits (by decide) (by decide) hc,
    Nat.ofDigitChars_ten_toDigits]

/-- Only zero begins with a zero. -/
theorem head_decimal_ne {n : ℕ} (h : 0 < n) : (decimal n).head? ≠ some 0x30 := by
  induction n using Nat.strongRecOn with
  | ind n ih =>
    unfold decimal
    by_cases hlt : n < 10
    · have hdigit : ∀ n < 10, 0 < n →
          ([n.digitChar].map fun c => c.toNat.toUInt8).head? ≠ some 0x30 := by decide
      rw [Nat.toDigits_of_lt_base hlt]
      exact hdigit n hlt h
    · have hne : (Nat.toDigits 10 (n / 10)).map (fun c => c.toNat.toUInt8) ≠ [] := by
        simp [Nat.toDigits_ne_nil]
      rw [Nat.toDigits_of_base_le (by decide) (by omega), List.map_append,
        List.head?_append_of_ne_nil _ hne]
      exact ih (n / 10) (by omega) (by omega)

theorem readDigits_decimal (n : ℕ) {rest : Bytes} (h : Stops rest) :
    readDigits (decimal n ++ rest) = some (n, rest) := by
  have hdigits : ∀ c ∈ decimal n, isDigit c = true := fun c => isDigit_of_mem_decimal
  have htake : rest.takeWhile isDigit = [] := by
    cases rest with
    | nil => rfl
    | cons c rest => rw [List.takeWhile_cons_of_neg (by simp [h c (by simp)])]
  have hdrop : rest.dropWhile isDigit = rest := by
    cases rest with
    | nil => rfl
    | cons c rest => rw [List.dropWhile_cons_of_neg (by simp [h c (by simp)])]
  have hne : decimal n ≠ [] := by simp [decimal, Nat.toDigits_ne_nil]
  unfold readDigits
  rw [List.takeWhile_append_of_pos hdigits, List.dropWhile_append_of_pos hdigits, htake, hdrop,
    List.append_nil, if_neg, ofDigits_decimal]
  rintro (hnil | ⟨hzero, hlength⟩)
  · exact hne hnil
  · rcases Nat.eq_zero_or_pos n with rfl | hpos
    · exact hlength rfl
    · exact head_decimal_ne hpos hzero

/-- What begins the text of an integer: no blank, and nothing that begins another value or ends
one. -/
theorem integer_eq_cons (n : ℤ) : ∃ c body, integer n = c :: body ∧ isBlank c = false ∧
    c ∉ [0x22, 0x5b, 0x7b, 0x5d, 0x7d, 0x6e, 0x74, 0x66] := by
  have hdigit : ∀ c : UInt8, isDigit c = true → isBlank c = false ∧
      c ∉ [0x22, 0x5b, 0x7b, 0x5d, 0x7d, 0x6e, 0x74, 0x66] := by
    intro c hc
    have hrange : 0x30 ≤ c.toNat ∧ c.toNat ≤ 0x39 := by
      simpa [isDigit, UInt8.le_iff_toNat_le] using hc
    constructor
    · simp only [isBlank, Bool.or_eq_false_iff, decide_eq_false_iff_not, ← UInt8.toNat_inj,
        UInt8.reduceToNat]
      omega
    · simp only [List.mem_cons, List.not_mem_nil, or_false, ← UInt8.toNat_inj, UInt8.reduceToNat]
      omega
  cases n with
  | ofNat n =>
    have hne : decimal n ≠ [] := by simp [decimal, Nat.toDigits_ne_nil]
    obtain ⟨c, body, heq⟩ := List.exists_cons_of_ne_nil hne
    exact ⟨c, body, heq, hdigit c (isDigit_of_mem_decimal (heq ▸ List.mem_cons_self))⟩
  | negSucc n => exact ⟨0x2d, decimal (n + 1), rfl, by decide⟩

/-- An integer is read back from its text. -/
theorem readNumber_integer (n : ℤ) {rest : Bytes} (h : Stops rest) :
    readNumber (integer n ++ rest) = some (n, rest) := by
  cases n with
  | ofNat n =>
    have hread := readDigits_decimal n h
    have hne : decimal n ≠ [] := by simp [decimal, Nat.toDigits_ne_nil]
    obtain ⟨c, body, heq⟩ := List.exists_cons_of_ne_nil hne
    have hdigit := isDigit_of_mem_decimal (heq ▸ List.mem_cons_self : c ∈ decimal n)
    have hminus : c ≠ 0x2d := by
      rintro rfl
      exact absurd hdigit (by decide)
    rw [heq, List.cons_append] at hread
    rw [integer, heq, List.cons_append, readNumber, if_neg hminus, hread]
    rfl
  | negSucc n =>
    rw [integer, List.cons_append, readNumber, if_pos rfl, readDigits_decimal _ h, Option.map_some]
    rfl

/-! ### Values -/

variable {style : Style}

/-- What begins the text of a value is no blank and closes nothing. -/
theorem render_eq_cons (style : Style) (depth : ℕ) (v : Value) :
    ∃ c body, render style depth v = c :: body ∧ isBlank c = false ∧ c ≠ 0x5d := by
  cases v with
  | null => exact ⟨_, _, rfl, by decide⟩
  | flag b => cases b <;> exact ⟨_, _, rfl, by decide⟩
  | number n =>
    obtain ⟨c, body, heq, hblank, hplain⟩ := integer_eq_cons n
    refine ⟨c, body, by rw [render, heq], hblank, ?_⟩
    rintro rfl
    exact hplain (by decide)
  | text bytes =>
    obtain ⟨body, heq, -⟩ := style.quote_read bytes []
    exact ⟨0x22, body, by rw [render, heq], by decide⟩
  | array elements => exact ⟨0x5b, _, by rw [render], by decide⟩
  | object members => exact ⟨0x7b, _, by rw [render], by decide⟩

/-- A number is read at the front. -/
theorem readValue_integer (m : ℕ) (n : ℤ) {rest : Bytes} (h : Stops rest) :
    readValue (m + 1) (integer n ++ rest) = some (.number n, rest) := by
  obtain ⟨c, body, heq, hblank, hplain⟩ := integer_eq_cons n
  simp only [List.mem_cons, List.not_mem_nil, or_false, not_or] at hplain
  obtain ⟨hquote, hbracket, hbrace, -, -, hn, ht, hf⟩ := hplain
  have hword : readWord (c :: (body ++ rest)) = none := by
    simp [readWord, words, Ne.symm hn, Ne.symm ht, Ne.symm hf]
  have hnumber := readNumber_integer n h
  rw [heq, List.cons_append] at hnumber ⊢
  rw [readValue, skip_cons hblank]
  simp only [if_neg hquote, if_neg hbracket, if_neg hbrace, hword, hnumber, Option.map_some]

/-- A quoted text is read at the front. -/
theorem readValue_quote (m : ℕ) (bytes rest : Bytes) :
    readValue (m + 1) (style.quote bytes ++ rest) = some (.text bytes, rest) := by
  obtain ⟨body, heq, hread⟩ := style.quote_read bytes rest
  rw [heq, List.cons_append, readValue, skip_cons (by decide)]
  simp only [if_true, hread, Option.map_some]

/-- What follows the last element: blanks, and the end of what they are the elements of. -/
theorem stops_gap (style : Style) (depth : ℕ) {c : UInt8} (h : isDigit c = false) (rest : Bytes) :
    Stops (style.gap depth ++ c :: rest) :=
  stops_append (style.gap_blank depth) (stops_cons h rest)

/-- Elements are read between brackets. -/
theorem readValue_elements {n : ℕ} {blanks body after : Bytes} {c : UInt8} {vs : List Value}
    (hblanks : ∀ c ∈ blanks, isBlank c = true) (hblank : isBlank c = false) (hc : c ≠ 0x5d)
    (hread : readElements n (blanks ++ c :: body) = some (vs, after)) :
    readValue (n + 1) (0x5b :: (blanks ++ c :: body)) = some (.array vs, after) := by
  rw [readValue, skip_cons (by decide)]
  dsimp only
  rw [if_neg (by decide), if_pos rfl, skip_append hblanks, skip_cons hblank, hread]
  split
  · rename_i hclose
    exact absurd (List.cons.inj hclose).1 hc
  · rfl

/-- Members are read between braces. -/
theorem readValue_members {n : ℕ} {blanks body after : Bytes} {ms : List (Bytes × Value)}
    (hblanks : ∀ c ∈ blanks, isBlank c = true)
    (hread : readMembers n (blanks ++ 0x22 :: body) = some (ms, after)) :
    readValue (n + 1) (0x7b :: (blanks ++ 0x22 :: body)) = some (.object ms, after) := by
  rw [readValue, skip_cons (by decide)]
  dsimp only
  rw [if_neg (by decide), if_neg (by decide), if_pos rfl, skip_append hblanks,
    skip_cons (by decide), hread]
  rfl

/-- What is read of some elements when their first is. -/
theorem readElements_value {n : ℕ} {bytes after : Bytes} {v : Value}
    (hread : readValue n bytes = some (v, after)) : readElements (n + 1) bytes =
      match skip after with
      | 0x2c :: rest => (readElements n rest).map fun found => (v :: found.1, found.2)
      | 0x5d :: rest => some ([v], rest)
      | _ => none := by
  rw [readElements, hread]
  simp only [Option.bind_eq_bind, Option.bind_some]
  split
  · rw [Option.map_eq_bind]
    rfl
  · rfl
  · rfl

/-- What is read of some members when their first is. -/
theorem readMembers_member {n : ℕ} {key colon bytes after : Bytes} {v : Value}
    (hcolon : ∀ c ∈ colon, isBlank c = true) (hread : readValue n bytes = some (v, after)) :
    readMembers (n + 1) (style.quote key ++ 0x3a :: (colon ++ bytes)) =
      match skip after with
      | 0x2c :: rest => (readMembers n rest).map fun found => ((key, v) :: found.1, found.2)
      | 0x7d :: rest => some ([(key, v)], rest)
      | _ => none := by
  obtain ⟨body, hbody, hchars⟩ := style.quote_read key (0x3a :: (colon ++ bytes))
  rw [hbody, List.cons_append, readMembers, skip_cons (by decide)]
  simp only [hchars, Option.bind_eq_bind, Option.bind_some]
  rw [skip_cons (by decide)]
  simp only [readValue_append hcolon, hread, Option.bind_some]
  split
  · rw [Option.map_eq_bind]
    rfl
  · rfl
  · rfl

/-- Values, elements and members are read back from texts that the fuel covers. -/
theorem read_render_aux (style : Style) (n : ℕ) :
    (∀ depth v rest, (render style depth v).length < n → Stops rest →
      readValue n (render style depth v ++ rest) = some (v, rest)) ∧
    (∀ depth depth' v vs rest, (renderElements style depth (v :: vs)).length + 1 < n →
      readElements n (renderElements style depth (v :: vs) ++ (style.gap depth' ++ 0x5d :: rest)) =
        some (v :: vs, rest)) ∧
    (∀ depth depth' m ms rest, (renderMembers style depth (m :: ms)).length + 1 < n →
      readMembers n (renderMembers style depth (m :: ms) ++ (style.gap depth' ++ 0x7d :: rest)) =
        some (m :: ms, rest)) := by
  induction n with
  | zero => exact ⟨fun _ _ _ h => absurd h (by omega), fun _ _ _ _ _ h => absurd h (by omega),
      fun _ _ _ _ _ h => absurd h (by omega)⟩
  | succ n ih =>
    obtain ⟨hvalue, helements, hmembers⟩ := ih
    refine ⟨fun depth v rest hfuel hstops => ?_, fun depth depth' v vs rest hfuel => ?_,
      fun depth depth' m ms rest hfuel => ?_⟩
    · cases v with
      | null => rfl
      | flag b => cases b <;> rfl
      | number k =>
        rw [render]
        exact readValue_integer n k hstops
      | text bytes =>
        rw [render]
        exact readValue_quote n bytes rest
      | array elements =>
        cases elements with
        | nil =>
          simp only [render, renderElements, List.isEmpty_nil]
          rfl
        | cons v vs =>
          obtain ⟨c, body, hc, hblank, hclose⟩ := render_eq_cons style (depth + 1) v
          simp only [render, List.isEmpty_cons, Bool.false_eq_true, if_false, List.length_cons,
            List.length_append] at hfuel ⊢
          have hread := helements (depth + 1) depth v vs rest (by omega)
          simp only [renderElements, hc, List.append_assoc, List.cons_append, List.nil_append]
            at hread ⊢
          exact readValue_elements (style.gap_blank _) hblank hclose hread
      | object members =>
        cases members with
        | nil =>
          simp only [render, renderMembers, List.isEmpty_nil]
          rfl
        | cons m ms =>
          obtain ⟨key, v⟩ := m
          obtain ⟨body, hbody, -⟩ := style.quote_read key []
          simp only [render, List.isEmpty_cons, Bool.false_eq_true, if_false, List.length_cons,
            List.length_append] at hfuel ⊢
          have hread := hmembers (depth + 1) depth (key, v) ms rest (by omega)
          simp only [renderMembers, hbody, List.append_assoc, List.cons_append, List.nil_append]
            at hread ⊢
          exact readValue_members (style.gap_blank _) hread
    · simp only [renderElements, List.append_assoc, List.length_append] at hfuel ⊢
      rw [readElements_append (style.gap_blank _)]
      cases vs with
      | nil =>
        simp only [List.isEmpty_nil, if_true, List.nil_append]
        rw [readElements_value (hvalue _ _ _ (by omega) (stops_gap style depth' (by decide) rest)),
          skip_append (style.gap_blank _), skip_cons (by decide)]
        rfl
      | cons w ws =>
        simp only [List.isEmpty_cons, Bool.false_eq_true, if_false, List.length_cons,
          List.cons_append] at hfuel ⊢
        rw [readElements_value (hvalue _ _ _ (by omega) (stops_cons (by decide) _)),
          skip_cons (by decide)]
        simp only [helements depth depth' w ws rest (by omega), Option.map_some]
    · obtain ⟨key, v⟩ := m
      simp only [renderMembers, List.append_assoc, List.length_append, List.cons_append,
        List.length_cons] at hfuel ⊢
      rw [readMembers_append (style.gap_blank _)]
      cases ms with
      | nil =>
        simp only [List.isEmpty_nil, if_true, List.nil_append]
        rw [readMembers_member style.colon_blank
            (hvalue _ _ _ (by omega) (stops_gap style depth' (by decide) rest)),
          skip_append (style.gap_blank _), skip_cons (by decide)]
        rfl
      | cons m' ms' =>
        simp only [List.isEmpty_cons, Bool.false_eq_true, if_false, List.length_cons,
          List.cons_append] at hfuel ⊢
        rw [readMembers_member style.colon_blank (hvalue _ _ _ (by omega) (stops_cons (by decide) _)),
          skip_cons (by decide)]
        simp only [hmembers depth depth' m' ms' rest (by omega), Option.map_some]

/-- Every value is read back from its text, whatever blanks stand before it. -/
theorem read_render (style : Style) (depth : ℕ) {blanks : Bytes}
    (h : ∀ c ∈ blanks, isBlank c = true) (v : Value) :
    read (blanks ++ render style depth v) = some v := by
  have hread := (read_render_aux style ((blanks ++ render style depth v).length + 1)).1 depth v []
    (by simp only [List.length_append]; omega) (by simp [Stops])
  unfold read
  rw [readValue_append h]
  rw [List.append_nil] at hread
  rw [hread]
  rfl

end Fcfn.JsonText
