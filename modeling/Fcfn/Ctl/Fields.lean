import Fcfn.Net.Rendered

/-!
# The fields that the client reads

The client looks for a field of a document by the text of its key. It finds the first member of that
name, wherever it stands in the document, and never a piece of a text: the writer escapes the quotes
of a text, and no text is followed by a colon but a key (`after_render`). A number is then read as it
is in the document, and a text up to its first quote. -/

namespace Fcfn

open Words JsonText

/-! ## Searching a document -/

/-- What follows the first occurrence of some bytes. -/
def after (needle : Bytes) : Bytes → Option Bytes
  | [] => if needle = [] then some [] else none
  | c :: rest =>
    if needle <+: c :: rest then some ((c :: rest).drop needle.length) else after needle rest

/-- Read digits as a number of 64 bits, which wraps, up to the first byte that is none. -/
def readU64 : UInt64 → Bytes → UInt64
  | value, [] => value
  | value, c :: rest =>
    if isDigit c then readU64 (value * 10 + (c - byteOf '0').toUInt64) rest else value

/-- The number of a field. -/
def jsonFieldU64 (document key : Bytes) : Option UInt64 :=
  match after (byteOf '"' :: (key ++ bytesOf "\":")) document with
  | none => none
  | some rest =>
    let digits := rest.dropWhile (· = byteOf ' ')
    if digits.head?.any isDigit then some (readU64 0 digits) else none

/-- The text of a field, up to its first quote; nothing when there is no such field. -/
def jsonStringField (document key : Bytes) : Bytes :=
  match after (byteOf '"' :: (key ++ bytesOf "\":\"")) document with
  | none => []
  | some rest => if byteOf '"' ∈ rest then rest.takeWhile (· ≠ byteOf '"') else []

/-! ## Looking up a value -/

mutual

/-- The first member of a name, among those whose values are looked for. -/
def JsonText.Value.first (key : Bytes) (sought : Value → Bool) : Value → Option Value
  | .array elements => firstElement key sought elements
  | .object members => firstMember key sought members
  | _ => none

def firstElement (key : Bytes) (sought : Value → Bool) : List Value → Option Value
  | [] => none
  | v :: rest => (v.first key sought).or (firstElement key sought rest)

def firstMember (key : Bytes) (sought : Value → Bool) : List (Bytes × Value) → Option Value
  | [] => none
  | (name, v) :: rest =>
    if name = key ∧ sought v = true then some v
    else (v.first key sought).or (firstMember key sought rest)

end

mutual

/-- What is found is one of those that are looked for. -/
theorem sought_of_first {key : Bytes} {sought : Value → Bool} (v : Value) {w : Value}
    (h : v.first key sought = some w) : sought w = true := by
  cases v with
  | array elements => exact sought_of_firstElement elements h
  | object members => exact sought_of_firstMember members h
  | null => exact absurd h (by simp [Value.first])
  | flag b => exact absurd h (by simp [Value.first])
  | number n => exact absurd h (by simp [Value.first])
  | text bytes => exact absurd h (by simp [Value.first])

theorem sought_of_firstElement {key : Bytes} {sought : Value → Bool} (vs : List Value) {w : Value}
    (h : firstElement key sought vs = some w) : sought w = true := by
  cases vs with
  | nil => exact absurd h (by simp [firstElement])
  | cons v vs =>
    rw [firstElement, Option.or_eq_some_iff] at h
    rcases h with h | ⟨-, h⟩
    · exact sought_of_first v h
    · exact sought_of_firstElement vs h

theorem sought_of_firstMember {key : Bytes} {sought : Value → Bool} (ms : List (Bytes × Value))
    {w : Value} (h : firstMember key sought ms = some w) : sought w = true := by
  cases ms with
  | nil => exact absurd h (by simp [firstMember])
  | cons m ms =>
    obtain ⟨name, v⟩ := m
    rw [firstMember] at h
    split at h
    · rename_i hfound
      rw [← Option.some.inj h]
      exact hfound.2
    · rw [Option.or_eq_some_iff] at h
      rcases h with h | ⟨-, h⟩
      · exact sought_of_first v h
      · exact sought_of_firstMember ms h

end

/-! ## Where a key is found -/

/-- Nothing that could be taken for the rest of a key or of a number follows a value. -/
def EndsValue (rest : Bytes) : Prop := ∀ c ∈ rest.head?, c = 0x2c ∨ c = 0x5d ∨ c = 0x7d

theorem endsValue_cons {c : UInt8} (h : c = 0x2c ∨ c = 0x5d ∨ c = 0x7d) (rest : Bytes) :
    EndsValue (c :: rest) := by
  intro d hd
  rw [List.head?_cons, Option.mem_some_iff] at hd
  exact hd ▸ h

/-- A byte that begins no needle is passed by. -/
theorem after_cons_ne {c d : UInt8} (h : d ≠ c) (needle rest : Bytes) :
    after (c :: needle) (d :: rest) = after (c :: needle) rest := by
  rw [after, if_neg]
  intro hprefix
  exact h (List.cons_prefix_cons.mp hprefix).1.symm

theorem after_append_of_notMem {c : UInt8} {front : Bytes} (h : c ∉ front) (needle rest : Bytes) :
    after (c :: needle) (front ++ rest) = after (c :: needle) rest := by
  induction front with
  | nil => rfl
  | cons d front ih =>
    rw [List.mem_cons, not_or] at h
    rw [List.cons_append, after_cons_ne (Ne.symm h.1), ih h.2]

section Keys

variable {key : Bytes}

/-- The bytes of a name. -/
theorem isName_mem (h : isName key = true) {c : UInt8} (hc : c ∈ key) :
    0x5f ≤ c.toNat ∧ c.toNat ≤ 0x7a := by
  unfold isName at h
  rw [Bool.and_eq_true, List.all_eq_true] at h
  have hbyte := h.2 c hc
  simp only [Bool.or_eq_true, Bool.and_eq_true, decide_eq_true_eq, UInt8.le_iff_toNat_le] at hbyte
  rcases hbyte with hletter | rfl
  · have ha : (byteOf 'a').toNat = 0x61 := rfl
    have hz : (byteOf 'z').toNat = 0x7a := rfl
    omega
  · decide

theorem isName_ne_nil (h : isName key = true) : key ≠ [] := by
  rintro rfl
  exact absurd h (by decide)

/-- A byte of a name stands for itself. -/
theorem escapeByte_of_range {c : UInt8} (h : 0x5f ≤ c.toNat) : Json.escapeByte c = [c] := by
  unfold Json.escapeByte
  simp only [← UInt8.toNat_inj, UInt8.lt_iff_toNat_lt, UInt8.reduceToNat]
  repeat rw [if_neg (by omega)]

/-- A name is written as it is. -/
theorem flatMap_escapeByte_name (h : ∀ c ∈ key, 0x5f ≤ c.toNat) :
    key.flatMap Json.escapeByte = key := by
  induction key with
  | nil => rfl
  | cons c key ih =>
    rw [List.flatMap_cons, escapeByte_of_range (h c List.mem_cons_self),
      ih fun d hd => h d (List.mem_cons_of_mem _ hd)]
    rfl

/-- What a byte is written as is the byte, or begins with a backslash; a quote in it is the quote
that the byte is. -/
theorem escapeByte_eq (c : UInt8) :
    Json.escapeByte c = [c] ∧ c ≠ 0x22 ∨
      ∃ code, Json.escapeByte c = 0x5c :: code ∧
        (0x22 ∉ code ∧ c ≠ 0x22 ∨ code = [0x22] ∧ c = 0x22) := by
  unfold Json.escapeByte
  split_ifs with hquote hslash hn hr ht hb hf hlow
  · exact .inr ⟨[0x22], rfl, .inr ⟨rfl, hquote⟩⟩
  · exact .inr ⟨[0x5c], rfl, .inl ⟨by decide, hquote⟩⟩
  · exact .inr ⟨[byteOf 'n'], rfl, .inl ⟨by decide, hquote⟩⟩
  · exact .inr ⟨[byteOf 'r'], rfl, .inl ⟨by decide, hquote⟩⟩
  · exact .inr ⟨[byteOf 't'], rfl, .inl ⟨by decide, hquote⟩⟩
  · exact .inr ⟨[byteOf 'b'], rfl, .inl ⟨by decide, hquote⟩⟩
  · exact .inr ⟨[byteOf 'f'], rfl, .inl ⟨by decide, hquote⟩⟩
  · have hcodes : ∀ k < 0x20, (0x22 : UInt8) ∉ byteOf 'u' :: hexDigits 4 k := by decide
    exact .inr ⟨byteOf 'u' :: hexDigits 4 c.toNat, rfl,
      .inl ⟨hcodes c.toNat (UInt8.lt_iff_toNat_lt.mp hlow), hquote⟩⟩
  · exact .inl ⟨rfl, hquote⟩

/-- A name and a quote begin the text of the name only. -/
theorem prefix_text_iff (h : ∀ c ∈ key, 0x5f ≤ c.toNat) (bytes more rest : Bytes) :
    key ++ 0x22 :: more <+: bytes.flatMap Json.escapeByte ++ 0x22 :: rest ↔
      bytes = key ∧ more <+: rest := by
  induction key generalizing bytes with
  | nil =>
    cases bytes with
    | nil => simp
    | cons c bytes =>
      refine iff_of_false (fun hprefix => ?_) (by simp)
      rw [List.flatMap_cons] at hprefix
      rcases escapeByte_eq c with ⟨hself, hne⟩ | ⟨code, hcode, -⟩
      · rw [hself] at hprefix
        exact hne (List.cons_prefix_cons.mp hprefix).1.symm
      · rw [hcode] at hprefix
        exact absurd (List.cons_prefix_cons.mp hprefix).1 (by decide)
  | cons k key ih =>
    have hk := h k List.mem_cons_self
    cases bytes with
    | nil =>
      refine iff_of_false (fun hprefix => ?_) (by simp)
      obtain rfl := (List.cons_prefix_cons.mp hprefix).1
      exact absurd hk (by decide)
    | cons c bytes =>
      rw [List.flatMap_cons]
      rcases escapeByte_eq c with ⟨hself, -⟩ | ⟨code, hcode, -⟩
      · rw [hself]
        simp only [List.cons_append, List.nil_append, List.cons_prefix_cons, List.cons.injEq]
        rw [ih (fun d hd => h d (List.mem_cons_of_mem _ hd)), and_assoc, eq_comm]
      · refine iff_of_false (fun hprefix => ?_) fun heq => ?_
        · rw [hcode] at hprefix
          obtain rfl := (List.cons_prefix_cons.mp hprefix).1
          exact absurd hk (by decide)
        · obtain rfl := (List.cons.inj heq.1).1
          rw [escapeByte_of_range hk] at hcode
          obtain rfl := (List.cons.inj hcode).1
          exact absurd hk (by decide)

/-- The text of a key, and what must follow it. -/
def needle (key more : Bytes) : Bytes := 0x22 :: (key ++ 0x22 :: 0x3a :: more)

/-- A text that no colon and no name follows holds no key. -/
theorem after_text (h : isName key = true) (more bytes : Bytes) {rest : Bytes}
    (hcolon : ¬ [0x3a] <+: rest) (hname : ¬ key <+: rest) :
    after (needle key more) (Json.text bytes ++ rest) = after (needle key more) rest := by
  have hrange : ∀ c ∈ key, 0x5f ≤ c.toNat := fun c hc => (isName_mem h hc).1
  have hquoted : ∀ bytes, ¬ needle key more <+:
      0x22 :: (List.flatMap Json.escapeByte bytes ++ 0x22 :: rest) := by
    intro bytes hprefix
    have hmore := ((prefix_text_iff hrange bytes _ rest).mp
      (List.cons_prefix_cons.mp hprefix).2).2
    exact hcolon ((List.prefix_append [0x3a] more).trans hmore)
  have hchars : ∀ bytes, after (needle key more)
      (List.flatMap Json.escapeByte bytes ++ 0x22 :: rest) = after (needle key more) rest := by
    intro bytes
    induction bytes with
    | nil =>
      rw [List.flatMap_nil, List.nil_append, after, if_neg]
      intro hprefix
      exact hname ((List.prefix_append key _).trans (List.cons_prefix_cons.mp hprefix).2)
    | cons c bytes ih =>
      rw [List.flatMap_cons, List.append_assoc]
      rcases escapeByte_eq c with ⟨hself, hne⟩ | ⟨code, hcode, ⟨hquote, -⟩ | ⟨rfl, -⟩⟩
      · rw [hself, List.singleton_append]
        exact (after_cons_ne hne _ _).trans ih
      · rw [hcode, List.cons_append]
        exact (after_cons_ne (by decide) _ _).trans
          ((after_append_of_notMem hquote _ _).trans ih)
      · -- a quote of the text: what follows it is text up to the end
        rw [hcode, List.cons_append, List.singleton_append]
        refine (after_cons_ne (by decide) _ _).trans ?_
        rw [← needle, after, if_neg (hquoted bytes), ih]
  unfold Json.text
  rw [List.cons_append, List.append_assoc, List.singleton_append, after, if_neg (hquoted bytes),
    hchars]

/-- A key is found when it is the one that is looked for. -/
theorem after_key (h : isName key = true) (more : Bytes) {name : Bytes} (hname : isName name = true)
    (rest : Bytes) : after (needle key more) (Json.text name ++ 0x3a :: rest) =
      if name = key ∧ more <+: rest then some (rest.drop more.length)
      else after (needle key more) rest := by
  have hrange : ∀ c ∈ key, 0x5f ≤ c.toNat := fun c hc => (isName_mem h hc).1
  have hself := flatMap_escapeByte_name fun c hc => (isName_mem hname hc).1
  have hfound := prefix_text_iff hrange name (0x3a :: more) (0x3a :: rest)
  rw [List.cons_prefix_cons] at hfound
  simp only [true_and] at hfound
  unfold Json.text
  rw [List.cons_append, List.append_assoc, List.singleton_append, after]
  split
  · rename_i hprefix
    have hkey := hfound.mp (List.cons_prefix_cons.mp hprefix).2
    obtain ⟨rfl, hmore⟩ := hkey
    rw [if_pos ⟨rfl, hmore⟩, hself]
    obtain ⟨tail, rfl⟩ := hmore
    have htext : 0x22 :: (name ++ 0x22 :: 0x3a :: (more ++ tail)) = needle name more ++ tail := by
      simp [needle]
    rw [htext, List.drop_left, List.drop_left]
  · rename_i hprefix
    rw [if_neg fun hkey => hprefix (List.cons_prefix_cons.mpr ⟨rfl, hfound.mpr hkey⟩), hself]
    have hquote : (0x22 : UInt8) ∉ name := by
      intro hmem
      exact absurd (isName_mem hname hmem).1 (by decide)
    rw [needle, after_append_of_notMem hquote, ← needle, after, if_neg, needle,
      after_cons_ne (by decide)]
    intro hclosing
    have hcolon := (List.cons_prefix_cons.mp hclosing).2
    obtain ⟨c, others, rfl⟩ := List.exists_cons_of_ne_nil (isName_ne_nil h)
    obtain rfl := (List.cons_prefix_cons.mp hcolon).1
    exact absurd (hrange _ List.mem_cons_self) (by decide)

/-- What ends a value begins no name, and is no colon. -/
theorem EndsValue.stops {rest : Bytes} (hrest : EndsValue rest) (h : isName key = true) :
    ¬ [0x3a] <+: rest ∧ ¬ key <+: rest := by
  cases rest with
  | nil =>
    refine ⟨by simp, fun hprefix => ?_⟩
    exact isName_ne_nil h (List.prefix_nil.mp hprefix)
  | cons d rest =>
    have hd := hrest d (by simp)
    constructor
    · intro hprefix
      obtain rfl := (List.cons_prefix_cons.mp hprefix).1
      revert hd
      decide
    · intro hprefix
      obtain ⟨c, others, rfl⟩ := List.exists_cons_of_ne_nil (isName_ne_nil h)
      obtain rfl := (List.cons_prefix_cons.mp hprefix).1
      have hrange := isName_mem h (List.mem_cons_self (a := c))
      rcases hd with rfl | rfl | rfl
      · exact absurd hrange (by decide)
      · exact absurd hrange (by decide)
      · exact absurd hrange (by decide)

/-- What a search finds in a text before what follows it: a value, or nothing. -/
def Scanned (key more : Bytes) (found : Option Value) (text rest : Bytes) : Prop :=
  match found with
  | none => after (needle key more) (text ++ rest) = after (needle key more) rest
  | some w => ∃ depth tail, EndsValue tail ∧ after (needle key more) (text ++ rest) =
      some ((render (Json.style false) depth w ++ tail).drop more.length)

/-- A search goes on behind a text where it found nothing. -/
theorem Scanned.or {more : Bytes} {found others : Option Value} {text text' rest : Bytes}
    (h : Scanned key more found text (text' ++ rest))
    (hothers : found = none → Scanned key more others text' rest) :
    Scanned key more (found.or others) (text ++ text') rest := by
  cases found with
  | some w =>
    unfold Scanned at h ⊢
    simpa [List.append_assoc] using h
  | none =>
    have hnext := hothers rfl
    unfold Scanned at h hnext ⊢
    rw [Option.none_or, List.append_assoc]
    cases others with
    | none => exact h.trans hnext
    | some w =>
      obtain ⟨depth, tail, htail, hafter⟩ := hnext
      exact ⟨depth, tail, htail, h.trans hafter⟩

/-- A search passes by what holds no quote. -/
theorem Scanned.skip {more : Bytes} {front : Bytes} (h : (0x22 : UInt8) ∉ front) (rest : Bytes) :
    Scanned key more none front rest :=
  after_append_of_notMem h _ rest

/-- What is left when the last of some values is written. -/
theorem endsValue_tail {α : Type} (list : List α) (others : Bytes) {rest : Bytes}
    (h : EndsValue rest) :
    EndsValue ((if list.isEmpty then [] else 0x2c :: others) ++ rest) := by
  split
  · exact h
  · exact endsValue_cons (.inl rfl) _

/-- No integer holds a quote. -/
theorem quote_notMem_integer (n : ℤ) : (0x22 : UInt8) ∉ integer n := by
  cases n with
  | ofNat n =>
    intro hmem
    exact absurd (isDigit_of_mem_decimal hmem) (by decide)
  | negSucc n =>
    intro hmem
    rcases List.mem_cons.mp hmem with heq | hmem
    · exact absurd heq (by decide)
    · exact absurd (isDigit_of_mem_decimal hmem) (by decide)

mutual

/-- A search of the text of a value finds the first member that is looked for. -/
theorem scanned_value (h : isName key = true) (more : Bytes) (sought : Value → Bool)
    (hsought : ∀ v depth rest,
      more <+: render (Json.style false) depth v ++ rest ↔ sought v = true)
    (depth : ℕ) (v : Value) (hv : v.Named) (rest : Bytes) (hrest : EndsValue rest) :
    Scanned key more (v.first key sought) (render (Json.style false) depth v) rest := by
  cases v with
  | null => exact .skip (by simp [render]) rest
  | flag b => exact .skip (by cases b <;> simp [render]) rest
  | number n =>
    refine .skip ?_ rest
    rw [render]
    exact quote_notMem_integer n
  | text bytes =>
    obtain ⟨hcolon, hname⟩ := hrest.stops h
    exact after_text h more bytes hcolon hname
  | array elements =>
    have hinner := scanned_elements h more sought hsought (depth + 1) elements hv
      (endsValue_cons (c := 0x5d) (.inr (.inl rfl)) rest)
    have hclosed : Scanned key more (firstElement key sought elements)
        (renderElements (Json.style false) (depth + 1) elements ++ [0x5d]) rest := by
      rw [← Option.or_none (o := firstElement key sought elements)]
      exact Scanned.or hinner fun _ => .skip (by decide) rest
    have hopened : Scanned key more (firstElement key sought elements)
        ([0x5b] ++ (renderElements (Json.style false) (depth + 1) elements ++ [0x5d])) rest :=
      Scanned.or (.skip (by decide) _) fun _ => hclosed
    unfold Value.first
    simpa [render, Json.style] using hopened
  | object members =>
    have hinner := scanned_members h more sought hsought (depth + 1) members hv
      (endsValue_cons (c := 0x7d) (.inr (.inr rfl)) rest)
    have hclosed : Scanned key more (firstMember key sought members)
        (renderMembers (Json.style false) (depth + 1) members ++ [0x7d]) rest := by
      rw [← Option.or_none (o := firstMember key sought members)]
      exact Scanned.or hinner fun _ => .skip (by decide) rest
    have hopened : Scanned key more (firstMember key sought members)
        ([0x7b] ++ (renderMembers (Json.style false) (depth + 1) members ++ [0x7d])) rest :=
      Scanned.or (.skip (by decide) _) fun _ => hclosed
    unfold Value.first
    simpa [render, Json.style] using hopened

theorem scanned_elements (h : isName key = true) (more : Bytes) (sought : Value → Bool)
    (hsought : ∀ v depth rest,
      more <+: render (Json.style false) depth v ++ rest ↔ sought v = true)
    (depth : ℕ) (vs : List Value) (hvs : ElementsNamed vs) {rest : Bytes}
    (hrest : EndsValue rest) :
    Scanned key more (firstElement key sought vs) (renderElements (Json.style false) depth vs)
      rest := by
  cases vs with
  | nil => exact .skip (by simp [renderElements]) rest
  | cons v vs =>
    obtain ⟨hv, hvs⟩ := hvs
    have hfirst := scanned_value h more sought hsought depth v hv _
      (endsValue_tail vs (renderElements (Json.style false) depth vs) hrest)
    have hothers : Scanned key more (firstElement key sought vs)
        (if vs.isEmpty then [] else 0x2c :: renderElements (Json.style false) depth vs) rest := by
      have hrec := scanned_elements h more sought hsought depth vs hvs hrest
      split
      · rename_i hempty
        obtain rfl := List.isEmpty_iff.mp hempty
        exact .skip (by simp) rest
      · rw [← List.singleton_append]
        exact Scanned.or (.skip (by decide) _) fun _ => hrec
    rw [renderElements]
    exact Scanned.or hfirst fun _ => hothers

theorem scanned_members (h : isName key = true) (more : Bytes) (sought : Value → Bool)
    (hsought : ∀ v depth rest,
      more <+: render (Json.style false) depth v ++ rest ↔ sought v = true)
    (depth : ℕ) (ms : List (Bytes × Value)) (hms : MembersNamed ms) {rest : Bytes}
    (hrest : EndsValue rest) :
    Scanned key more (firstMember key sought ms) (renderMembers (Json.style false) depth ms)
      rest := by
  cases ms with
  | nil => exact .skip (by simp [renderMembers]) rest
  | cons m ms =>
    obtain ⟨name, v⟩ := m
    obtain ⟨hname, hv, hms⟩ := hms
    have hfirst := scanned_value h more sought hsought depth v hv _
      (endsValue_tail ms (renderMembers (Json.style false) depth ms) hrest)
    have hothers : Scanned key more (firstMember key sought ms)
        (if ms.isEmpty then [] else 0x2c :: renderMembers (Json.style false) depth ms) rest := by
      have hrec := scanned_members h more sought hsought depth ms hms hrest
      split
      · rename_i hempty
        obtain rfl := List.isEmpty_iff.mp hempty
        exact .skip (by simp) rest
      · rw [← List.singleton_append]
        exact Scanned.or (.skip (by decide) _) fun _ => hrec
    have hmembers := Scanned.or hfirst fun _ => hothers
    have htext : renderMembers (Json.style false) depth ((name, v) :: ms) ++ rest =
        Json.text name ++ 0x3a :: (render (Json.style false) depth v ++
          (if ms.isEmpty then [] else 0x2c :: renderMembers (Json.style false) depth ms) ++
            rest) := by
      simp [renderMembers, Json.style]
    have hkey := after_key h more hname (render (Json.style false) depth v ++
      (if ms.isEmpty then [] else 0x2c :: renderMembers (Json.style false) depth ms) ++ rest)
    rw [← htext, List.append_assoc] at hkey
    simp only [hsought] at hkey
    unfold firstMember
    split at hkey
    · rename_i hfound
      rw [if_pos hfound]
      exact ⟨depth, _, endsValue_tail ms _ hrest, hkey⟩
    · rename_i hother
      rw [if_neg hother]
      unfold Scanned at hmembers ⊢
      rw [hkey, ← List.append_assoc]
      exact hmembers

end

end Keys

/-! ## What is read -/

/-- Digits are read as their number, which wraps. -/
theorem readU64_digits {digits rest : Bytes} (hdigits : ∀ c ∈ digits, isDigit c = true)
    (hrest : Stops rest) (m : ℕ) : readU64 (UInt64.ofNat m) (digits ++ rest) =
      UInt64.ofNat (digits.foldl (fun n c => n * 10 + (c.toNat - 0x30)) m) := by
  induction digits generalizing m with
  | nil =>
    cases rest with
    | nil => rfl
    | cons c rest =>
      rw [List.nil_append, readU64, hrest c (by simp)]
      rfl
  | cons c digits ih =>
    have hdigit := hdigits c List.mem_cons_self
    have hge : 0x30 ≤ c.toNat := by
      simp only [isDigit, Bool.and_eq_true, decide_eq_true_eq, UInt8.le_iff_toNat_le] at hdigit
      exact hdigit.1
    have hstep : UInt64.ofNat m * 10 + (c - byteOf '0').toUInt64 =
        UInt64.ofNat (m * 10 + (c.toNat - 0x30)) := by
      have hbyte : (c - byteOf '0').toNat = c.toNat - 0x30 :=
        UInt8.toNat_sub_of_le c (byteOf '0') (UInt8.le_iff_toNat_le.mpr hge)
      rw [UInt64.ofNat_add, UInt64.ofNat_mul, ← hbyte]
      congr 1
      rw [← UInt64.toNat_inj]
      simp
    rw [List.cons_append, readU64, if_pos hdigit, hstep,
      ih fun d hd => hdigits d (List.mem_cons_of_mem _ hd)]
    rfl

/-- The text of a quoted text is read up to its first quote. -/
theorem takeWhile_text (bytes rest : Bytes) :
    (bytes.flatMap Json.escapeByte ++ 0x22 :: rest).takeWhile (· ≠ byteOf '"') =
      (bytes.takeWhile (· ≠ byteOf '"')).flatMap Json.escapeByte ++
        (if byteOf '"' ∈ bytes then [0x5c] else []) := by
  induction bytes with
  | nil => rfl
  | cons c bytes ih =>
    have hplain : ∀ front : Bytes, (0x22 : UInt8) ∉ front → c ≠ 0x22 → Json.escapeByte c = front →
        ((c :: bytes).flatMap Json.escapeByte ++ 0x22 :: rest).takeWhile (· ≠ byteOf '"') =
          ((c :: bytes).takeWhile (· ≠ byteOf '"')).flatMap Json.escapeByte ++
            (if byteOf '"' ∈ c :: bytes then [0x5c] else []) := by
      intro front hfront hne hescape
      have htaken : ∀ d ∈ front, decide (d ≠ byteOf '"') = true := by
        intro d hd
        rw [decide_eq_true_eq]
        rintro rfl
        exact hfront hd
      have hmem : byteOf '"' ∈ c :: bytes ↔ byteOf '"' ∈ bytes := by
        have hother : ¬ byteOf '"' = c := fun heq => hne heq.symm
        rw [List.mem_cons, or_iff_right hother]
      have htake : (c :: bytes).takeWhile (· ≠ byteOf '"') =
          c :: bytes.takeWhile (· ≠ byteOf '"') := List.takeWhile_cons_of_pos (decide_eq_true hne)
      rw [List.flatMap_cons, hescape, List.append_assoc, List.takeWhile_append_of_pos htaken, ih,
        htake, List.flatMap_cons, hescape,
        List.append_assoc]
      simp only [hmem]
    rcases escapeByte_eq c with ⟨hself, hne⟩ | ⟨code, hcode, ⟨hquote, hne⟩ | ⟨rfl, rfl⟩⟩
    · exact hplain [c] (by simpa using Ne.symm hne) hne hself
    · exact hplain (0x5c :: code) (by simpa using hquote) hne hcode
    · -- the quote of the text, behind its backslash
      rw [List.flatMap_cons, hcode]
      have hmem : byteOf '"' ∈ (0x22 : UInt8) :: bytes := List.mem_cons_self
      rw [if_pos hmem]
      rfl

/-- Whether a value is a text. -/
def JsonText.Value.isText : Value → Bool
  | .text _ => true
  | _ => false

/-- The text of a value begins with a quote when the value is a text. -/
theorem quote_prefix_render (v : Value) (depth : ℕ) (rest : Bytes) :
    [0x22] <+: render (Json.style false) depth v ++ rest ↔ v.isText = true := by
  cases v with
  | null => simp [render, Value.isText]
  | flag b => cases b <;> simp [render, Value.isText]
  | number n =>
    obtain ⟨c, body, heq, -, hplain⟩ := integer_eq_cons n
    refine iff_of_false (fun hprefix => ?_) (by simp [Value.isText])
    rw [render, heq] at hprefix
    obtain rfl := (List.cons_prefix_cons.mp hprefix).1
    exact hplain List.mem_cons_self
  | text bytes =>
    refine iff_of_true ?_ rfl
    rw [render]
    exact ⟨bytes.flatMap Json.escapeByte ++ [0x22] ++ rest, rfl⟩
  | array elements => simp [render, Value.isText]
  | object members => simp [render, Value.isText]

/-- The number that is read where a value is written. -/
def JsonText.Value.read : Value → Option UInt64
  | .number n => if 0 ≤ n then some (UInt64.ofNat n.toNat) else none
  | _ => none

/-- The text that is read where a value is written: that of the document up to the first quote of
the text, with the backslash of the quote. -/
def JsonText.Value.shown : Value → Bytes
  | .text bytes => (bytes.takeWhile (· ≠ byteOf '"')).flatMap Json.escapeByte ++
      (if byteOf '"' ∈ bytes then [0x5c] else [])
  | _ => []

section Readers

variable {key document : Bytes} {v : Value}

/-- A number is read where it is written, and nothing where another value is. -/
theorem readU64_render (w : Value) (depth : ℕ) {tail : Bytes} (htail : EndsValue tail) :
    (let digits := (render (Json.style false) depth w ++ tail).dropWhile (· = byteOf ' ')
      if digits.head?.any isDigit then some (readU64 0 digits) else none) = w.read := by
  have hstops : Stops tail := by
    intro c hc
    rcases htail c hc with rfl | rfl | rfl
    · rfl
    · rfl
    · rfl
  have hbegins : ∀ {c : UInt8} {body : Bytes}, c ≠ byteOf ' ' →
      (c :: body).dropWhile (fun d => decide (d = byteOf ' ')) = c :: body := by
    intro c body hc
    rw [List.dropWhile_cons_of_neg (by simpa using hc)]
  dsimp only
  cases w with
  | null =>
    rw [render, List.cons_append, hbegins (by decide)]
    rfl
  | flag b =>
    cases b
    · rw [render, List.cons_append, hbegins (by decide)]
      rfl
    · rw [render, List.cons_append, hbegins (by decide)]
      rfl
  | text bytes =>
    have htext : render (Json.style false) depth (.text bytes) =
        0x22 :: (bytes.flatMap Json.escapeByte ++ [0x22]) := rfl
    rw [htext, List.cons_append, hbegins (by decide)]
    rfl
  | array elements =>
    rw [render, List.cons_append, hbegins (by decide)]
    rfl
  | object members =>
    rw [render, List.cons_append, hbegins (by decide)]
    rfl
  | number n =>
    rw [render]
    cases n with
    | negSucc n =>
      rw [integer, List.cons_append, hbegins (by decide)]
      rfl
    | ofNat n =>
      have hne : decimal n ≠ [] := by simp [decimal, Nat.toDigits_ne_nil]
      obtain ⟨c, body, heq⟩ := List.exists_cons_of_ne_nil hne
      have hdigit := isDigit_of_mem_decimal (heq ▸ List.mem_cons_self : c ∈ decimal n)
      have hblank : c ≠ byteOf ' ' := by
        rintro rfl
        exact absurd hdigit (by decide)
      have hread := readU64_digits (fun c => isDigit_of_mem_decimal (n := n)) hstops 0
      rw [← ofDigits, ofDigits_decimal] at hread
      rw [integer, heq, List.cons_append, hbegins hblank, List.head?_cons, Option.any_some,
        if_pos hdigit, ← List.cons_append, ← heq]
      exact congrArg some hread

/-- A number field is that of the first member of its name. -/
theorem jsonFieldU64_renders (hkey : isName key = true) (h : Renders document v) :
    jsonFieldU64 document key = (v.first key fun _ => true).bind Value.read := by
  have hscan := scanned_value hkey [] (fun _ => true) (by simp) 0 v h.named []
    (by simp [EndsValue])
  have hneedle : byteOf '"' :: (key ++ bytesOf "\":") = needle key [] := rfl
  unfold jsonFieldU64
  rw [hneedle]
  unfold Scanned at hscan
  rw [h.text, List.append_nil] at hscan
  cases hfirst : v.first key fun _ => true with
  | none =>
    rw [hfirst] at hscan
    rw [hscan]
    rfl
  | some w =>
    rw [hfirst] at hscan
    obtain ⟨depth, tail, htail, hafter⟩ := hscan
    rw [hafter]
    exact readU64_render w depth htail

/-- A text field is that of the first member of its name that is a text. -/
theorem jsonStringField_renders (hkey : isName key = true) (h : Renders document v) :
    jsonStringField document key = ((v.first key Value.isText).map Value.shown).getD [] := by
  have hscan := scanned_value hkey [0x22] Value.isText
    (fun v depth rest => quote_prefix_render v depth rest) 0 v h.named [] (by simp [EndsValue])
  have hneedle : byteOf '"' :: (key ++ bytesOf "\":\"") = needle key [0x22] := rfl
  unfold jsonStringField
  rw [hneedle]
  unfold Scanned at hscan
  rw [h.text, List.append_nil] at hscan
  cases hfirst : v.first key Value.isText with
  | none =>
    rw [hfirst] at hscan
    rw [hscan]
    rfl
  | some w =>
    rw [hfirst] at hscan
    obtain ⟨depth, tail, htail, hafter⟩ := hscan
    have htext := sought_of_first v hfirst
    cases w with
    | text bytes =>
      have hrender : (render (Json.style false) depth (.text bytes) ++ tail).drop
          ([0x22] : Bytes).length = bytes.flatMap Json.escapeByte ++ 0x22 :: tail := by
        have hlist : render (Json.style false) depth (.text bytes) ++ tail =
            0x22 :: (bytes.flatMap Json.escapeByte ++ [0x22] ++ tail) := rfl
        rw [hlist, List.append_assoc]
        rfl
      have hmem : byteOf '"' ∈ bytes.flatMap Json.escapeByte ++ 0x22 :: tail :=
        List.mem_append_right _ List.mem_cons_self
      rw [hafter, hrender]
      dsimp only
      rw [if_pos hmem, takeWhile_text]
      rfl
    | null => exact absurd htext (by simp [Value.isText])
    | flag b => exact absurd htext (by simp [Value.isText])
    | number n => exact absurd htext (by simp [Value.isText])
    | array elements => exact absurd htext (by simp [Value.isText])
    | object members => exact absurd htext (by simp [Value.isText])

end Readers

/-- A document of any value under names is read by its fields: a number is that of the first member of
the name, and a text is that of the first member of the name that is a text, up to its first quote. -/
theorem fields_read (key : Bytes) (hkey : isName key = true) (v : Value) (hfits : v.Fits)
    (hnamed : v.Named) :
    jsonFieldU64 ((JsonWriter.new false).calls v.calls).out key =
        (v.first key fun _ => true).bind Value.read ∧
      jsonStringField ((JsonWriter.new false).calls v.calls).out key =
        ((v.first key Value.isText).map Value.shown).getD [] := by
  have hrenders := Renders.of_calls hfits hnamed
  exact ⟨jsonFieldU64_renders hkey hrenders, jsonStringField_renders hkey hrenders⟩

/-- A text that looks like a member of the object does not hide the member. -/
theorem fields_read_hostile :
    let v := Value.object [(bytesOf "subject", .text (bytesOf "x\",\"claim\":\"y")),
      (bytesOf "claim", .text (bytesOf "cut"))]
    jsonFieldU64 ((JsonWriter.new false).calls v.calls).out (bytesOf "claim") = none ∧
      jsonStringField ((JsonWriter.new false).calls v.calls).out (bytesOf "claim") =
        bytesOf "cut" := by
  intro v
  have hnames : isName (bytesOf "subject") = true ∧ isName (bytesOf "claim") = true := by decide
  have hread := fields_read (bytesOf "claim") hnames.2 v ⟨trivial, trivial, trivial⟩
    ⟨hnames.1, trivial, hnames.2, trivial, trivial⟩
  have hfirst : v.first (bytesOf "claim") Value.isText = some (.text (bytesOf "cut")) := rfl
  have hnumber : v.first (bytesOf "claim") (fun _ => true) = some (.text (bytesOf "cut")) := rfl
  rw [hfirst, hnumber] at hread
  exact hread

end Fcfn
