import Fcfn.Ctl.ConfigFiles

/-!
# Numbers in configuration files

`parseNumber` reads the numbers of all configuration files, and `parseU64` those of the store. The
first checks no more than the count of digits, and wraps on the twenty digits from 2^64 on (`Wraps`);
the second refuses them. `config_numbers_exact_iff` says that nothing else goes wrong: a text that
does not wrap is read as its value or refused, by both alike, and the numbers of a file are what the
file says, unless one of the texts that decide them wraps. -/

namespace Fcfn.ConfigText

open Words

/-! ## Decimal texts -/

/-- A text of decimal digits. -/
def Digits (text : Bytes) : Prop := ∀ c ∈ text, byteOf '0' ≤ c ∧ c ≤ byteOf '9'

/-- The value of some digits after others. -/
def decimalFrom (value : ℕ) (text : Bytes) : ℕ :=
  text.foldl (fun value c => value * 10 + (c - byteOf '0').toNat) value

/-- The value of a decimal text. -/
def decimalValue (text : Bytes) : ℕ := decimalFrom 0 text

/-- A text of at most twenty digits whose value fits in 64 bits. -/
structure IsNumber (text : Bytes) : Prop where
  ne_nil : text ≠ []
  length_le : text.length ≤ 20
  digits : Digits text
  lt : decimalValue text < 2 ^ 64

/-- A text of twenty digits whose value does not fit in 64 bits. -/
structure Wraps (text : Bytes) : Prop where
  length_eq : text.length = 20
  digits : Digits text
  le : 2 ^ 64 ≤ decimalValue text

/-- A digit is below ten. -/
theorem digit_le {c : UInt8} (h : byteOf '0' ≤ c ∧ c ≤ byteOf '9') : (c - byteOf '0').toNat ≤ 9 := by
  rw [UInt8.le_iff_toNat_le, UInt8.le_iff_toNat_le] at h
  rw [UInt8.toNat_sub_of_le _ _ (UInt8.le_iff_toNat_le.mpr h.1)]
  have hzero : (byteOf '0').toNat = 48 := by decide
  have hnine : (byteOf '9').toNat = 57 := by decide
  omega

@[simp] theorem decimalFrom_nil (value : ℕ) : decimalFrom value [] = value := rfl

@[simp] theorem decimalFrom_cons (value : ℕ) (c : UInt8) (text : Bytes) :
    decimalFrom value (c :: text) = decimalFrom (value * 10 + (c - byteOf '0').toNat) text := rfl

theorem digits_cons {c : UInt8} {text : Bytes} :
    Digits (c :: text) ↔ (byteOf '0' ≤ c ∧ c ≤ byteOf '9') ∧ Digits text := List.forall_mem_cons

/-- More digits make the value no smaller. -/
theorem le_decimalFrom (value : ℕ) (text : Bytes) : value ≤ decimalFrom value text := by
  induction text generalizing value with
  | nil => exact le_rfl
  | cons c text ih =>
    have hstep : value ≤ value * 10 + (c - byteOf '0').toNat := by omega
    exact hstep.trans (ih _)

/-- A value has no more digits than its text. -/
theorem decimalFrom_lt {text : Bytes} (h : Digits text) (value : ℕ) :
    decimalFrom value text < (value + 1) * 10 ^ text.length := by
  induction text generalizing value with
  | nil => simp
  | cons c text ih =>
    obtain ⟨hc, htext⟩ := digits_cons.mp h
    have hdigit := digit_le hc
    calc decimalFrom value (c :: text)
        < (value * 10 + (c - byteOf '0').toNat + 1) * 10 ^ text.length := ih htext _
      _ ≤ ((value + 1) * 10) * 10 ^ text.length := Nat.mul_le_mul_right _ (by omega)
      _ = (value + 1) * 10 ^ (c :: text).length := by rw [List.length_cons, pow_succ]; ring

/-- Twenty digits that do not wrap fit, and so do fewer. -/
theorem decimalValue_lt {text : Bytes} (hlength : text.length ≤ 20) (hdigits : Digits text)
    (h : ¬ Wraps text) : decimalValue text < 2 ^ 64 := by
  by_contra hle
  have hlt : decimalValue text < (0 + 1) * 10 ^ text.length := decimalFrom_lt hdigits 0
  -- nineteen digits stay below 10^19, which is less than 2^64
  have hshort : text.length ≠ 20 := fun heq => h ⟨heq, hdigits, Nat.le_of_not_lt hle⟩
  have hpow : 10 ^ text.length ≤ 10 ^ 19 := Nat.pow_le_pow_right (by decide) (by omega)
  omega

/-! ## The two readers -/

/-- Digits read in 64 bits give the value of the digits in 64 bits. -/
theorem foldl_decimal (text : Bytes) (value : ℕ) :
    text.foldl (fun value c => value * 10 + (c - byteOf '0').toUInt64) (UInt64.ofNat value) =
      UInt64.ofNat (decimalFrom value text) := by
  induction text generalizing value with
  | nil => rfl
  | cons c text ih =>
    have hstep : UInt64.ofNat value * 10 + (c - byteOf '0').toUInt64 =
        UInt64.ofNat (value * 10 + (c - byteOf '0').toNat) := by
      rw [UInt64.ofNat_add, UInt64.ofNat_mul, UInt64.ofNat_uInt8ToNat]
      rfl
    rw [List.foldl_cons, hstep, decimalFrom_cons]
    exact ih _

/-- What the configuration's reader accepts, and what it returns. -/
theorem parseNumber_eq_some {text : Bytes} {value : UInt64} :
    parseNumber text = some value ↔ text ≠ [] ∧ text.length ≤ 20 ∧ Digits text ∧
      value = UInt64.ofNat (decimalValue text) := by
  have hall : (text.all fun c => byteOf '0' ≤ c && c ≤ byteOf '9') = true ↔ Digits text := by
    simp [Digits]
  have hfold : text.foldl (fun value c => value * 10 + (c - byteOf '0').toUInt64) 0 =
      UInt64.ofNat (decimalValue text) := foldl_decimal text 0
  unfold parseNumber
  split
  · rename_i hshape
    exact iff_of_false (by simp) fun h => hshape.elim h.1 (Nat.not_lt.mpr h.2.1)
  · rename_i hshape
    rw [not_or, Nat.not_lt] at hshape
    rw [hfold]
    split
    · rename_i hdigits
      simp only [Option.some.injEq, ne_eq, hshape, hall.mp hdigits, not_false_eq_true, true_and,
        eq_comm]
    · rename_i hdigits
      exact iff_of_false (by simp) fun h => hdigits (hall.mpr h.2.2.1)

/-- The digits of the store's reader: each step refuses what would not fit. -/
theorem parseDigits_eq_some {text : Bytes} {value n : ℕ} (hvalue : value ≤ kMaxUInt64) :
    parseDigits value text = some n ↔
      Digits text ∧ decimalFrom value text = n ∧ n ≤ kMaxUInt64 := by
  induction text generalizing value with
  | nil =>
    simp only [parseDigits, Option.some.injEq, decimalFrom_nil]
    exact ⟨fun h => ⟨by simp [Digits], h, h ▸ hvalue⟩, fun h => h.2.1⟩
  | cons c text ih =>
    rw [parseDigits, digits_cons, decimalFrom_cons]
    split
    · rename_i hrange
      refine iff_of_false (by simp) fun h => ?_
      exact hrange.elim (UInt8.not_lt.mpr h.1.1.1) (UInt8.not_lt.mpr h.1.1.2)
    · rename_i hrange
      rw [not_or, UInt8.not_lt, UInt8.not_lt] at hrange
      have hdigit := digit_le hrange
      simp only
      split
      -- the rest of the digits would only add to a value that is too large already
      · rename_i hbig
        refine iff_of_false (by simp) fun h => ?_
        have hle := le_decimalFrom (value * 10 + (c - byteOf '0').toNat) text
        have hmax := h.2.2
        rw [h.2.1] at hle
        unfold kMaxUInt64 at hbig hmax
        omega
      · rename_i hsmall
        rw [ih (by unfold kMaxUInt64 at hsmall ⊢; omega)]
        simp only [hrange, and_self, true_and]

/-- The store's reader accepts the numbers, and returns their values. -/
theorem parseU64_eq_some {text : Bytes} {value : UInt64} :
    parseU64 text = some value ↔ IsNumber text ∧ value.toNat = decimalValue text := by
  unfold parseU64
  split
  · rename_i hshape
    exact iff_of_false (by simp) fun h => hshape.elim h.1.ne_nil (Nat.not_lt.mpr h.1.length_le)
  · rename_i hshape
    rw [not_or, Nat.not_lt] at hshape
    rw [Option.map_eq_some_iff]
    constructor
    · rintro ⟨n, hn, rfl⟩
      obtain ⟨hdigits, hn, hle⟩ := (parseDigits_eq_some (by decide)).mp hn
      have hlt : n < 2 ^ 64 := by unfold kMaxUInt64 at hle; omega
      refine ⟨⟨hshape.1, hshape.2, hdigits, ?_⟩, ?_⟩
      · rwa [decimalValue, hn]
      · rw [UInt64.toNat_ofNat', Nat.mod_eq_of_lt hlt, decimalValue, hn]
    · rintro ⟨hnumber, hvalue⟩
      have hlt := hnumber.lt
      refine ⟨decimalValue text, (parseDigits_eq_some (by decide)).mpr ⟨hnumber.digits, rfl, ?_⟩, ?_⟩
      · unfold kMaxUInt64
        omega
      · rw [← hvalue, UInt64.ofNat_toNat]

/-- A text is read as its value, or refused, and the store's reader does the same. -/
structure ExactOrRefused (text : Bytes) : Prop where
  accepted : ∀ value, parseNumber text = some value ↔
    IsNumber text ∧ value.toNat = decimalValue text
  agrees : parseNumber text = parseU64 text

/-- The value of a text that is read in 64 bits. -/
def Exact (text : Bytes) (value : UInt64) : Prop := value.toNat = decimalValue text

/-- A value in 64 bits is not the one of a text that wraps. -/
theorem Exact.not_wraps {text : Bytes} {value : UInt64} (h : Exact text value) : ¬ Wraps text :=
  fun hwraps => absurd (h ▸ value.toNat_lt) (Nat.not_lt.mpr hwraps.le)

/-- What is read is exact unless the text wraps. -/
theorem exact_of_parseNumber {text : Bytes} {value : UInt64} (hread : parseNumber text = some value)
    (h : ¬ Wraps text) : Exact text value := by
  obtain ⟨-, hlength, hdigits, rfl⟩ := parseNumber_eq_some.mp hread
  exact (UInt64.toNat_ofNat').trans (Nat.mod_eq_of_lt (decimalValue_lt hlength hdigits h))

/-- A text is read exactly or refused if and only if it does not wrap. -/
theorem exactOrRefused_iff (text : Bytes) : ExactOrRefused text ↔ ¬ Wraps text := by
  constructor
  · rintro ⟨haccepted, -⟩ hwraps
    have hne : text ≠ [] := List.ne_nil_of_length_pos (by rw [hwraps.length_eq]; decide)
    -- a text that wraps passes the check of its length and is read
    have hread := parseNumber_eq_some.mpr ⟨hne, hwraps.length_eq.le, hwraps.digits, rfl⟩
    exact absurd ((haccepted _).mp hread).1.lt (Nat.not_lt.mpr hwraps.le)
  · intro h
    have haccepted (value : UInt64) : parseNumber text = some value ↔
        IsNumber text ∧ value.toNat = decimalValue text := by
      constructor
      · intro hread
        obtain ⟨hne, hlength, hdigits, -⟩ := parseNumber_eq_some.mp hread
        exact ⟨⟨hne, hlength, hdigits, decimalValue_lt hlength hdigits h⟩,
          exact_of_parseNumber hread h⟩
      · rintro ⟨hnumber, hvalue⟩
        refine parseNumber_eq_some.mpr ⟨hnumber.ne_nil, hnumber.length_le, hnumber.digits, ?_⟩
        rw [← hvalue, UInt64.ofNat_toNat]
    refine ⟨haccepted, Option.ext fun value => ?_⟩
    exact (haccepted value).trans parseU64_eq_some.symm

/-! ## What a file says -/

/-- The tokens of the lines of a file. -/
def tokens (file : Option Bytes) : List (List Bytes) := ((readLines file).toOption.getD []).map split

/-- The line is a directive of a name. -/
def IsDirective (name : Bytes) (line : List Bytes) : Bool := line.head? == some name

/-- The arguments that a file gives to a directive of one argument. The last one decides. -/
def argumentsOf (name : Bytes) (lines : List (List Bytes)) : List Bytes :=
  lines.filterMap fun parts => if IsDirective name parts then parts[1]? else none

/-- The values that some fields give to a name. -/
def valuesOf (name : Bytes) (fields : List Field) : List Bytes :=
  fields.filterMap fun field => if field.1 = name then some field.2 else none

/-- The value that a line gives to a name. The first one decides. -/
def fieldText (name : Bytes) (parts : List Bytes) : Option Bytes :=
  (valuesOf name (parts.filterMap parseField)).head?

/-- A number is what the text that decides it says, or what it is without such a text. -/
def Said (R : Bytes → UInt64 → Prop) (text : Option Bytes) (absent value : UInt64) : Prop :=
  match text with
  | none => value = absent
  | some text => R text value

/-- The weight of a node of a topology file. -/
def weightText (line : List Bytes) : Option Bytes := fieldText (bytesOf "weight") (line.drop 2)

/-- The generation of an edge of a topology file. -/
def edgeText (line : List Bytes) : Option Bytes := fieldText (bytesOf "generation") (line.drop 3)

/-- The time of an observation of an evidence file. -/
def timeText (line : List Bytes) : Option Bytes := fieldText (bytesOf "at") (line.drop 3)

/-- The nodes of a topology file. -/
def nodeLines (lines : List (List Bytes)) : List (List Bytes) :=
  lines.filter (IsDirective (bytesOf "node"))

/-- The edges of a topology file. -/
def edgeLines (lines : List (List Bytes)) : List (List Bytes) :=
  lines.filter (IsDirective (bytesOf "edge"))

/-- The observations of an evidence file. -/
def observationLines (lines : List (List Bytes)) : List (List Bytes) := lines.filter (!·.isEmpty)

/-- The weight of a node is what its line says. -/
def NodeSays (R : Bytes → UInt64 → Prop) (line : List Bytes) (node : NodeSpec) : Prop :=
  Said R (weightText line) 1 node.weight

/-- The generation of an edge is what its line says, where zero stands for one. -/
def EdgeSays (R : Bytes → UInt64 → Prop) (line : List Bytes) (edge : EdgeSpec) : Prop :=
  ∃ written, Said R (edgeText line) 0 written ∧
    edge.generation = if written = 0 then 1 else written

/-- The generation and the time of an observation are what its line says. -/
def ObservationSays (R : Bytes → UInt64 → Prop) (parts : List Bytes)
    (observation : FileObservation) : Prop :=
  Said R parts[2]? 0 observation.generation ∧
    Said R (timeText parts) 0 observation.observed_at_millis

/-- The numbers of a topology are those that its file says. -/
structure TopologySays (R : Bytes → UInt64 → Prop) (lines : List (List Bytes))
    (spec : TopologySpec) : Prop where
  generation : Said R (argumentsOf (bytesOf "generation") lines).getLast? 0 spec.generation
  nodes : List.Forall₂ (NodeSays R) (nodeLines lines) spec.nodes
  edges : List.Forall₂ (EdgeSays R) (edgeLines lines) spec.edges

/-- The numbers of some observations are those that their file says. -/
def EvidenceSays (R : Bytes → UInt64 → Prop) (lines : List (List Bytes))
    (observations : List FileObservation) : Prop :=
  List.Forall₂ (ObservationSays R) (observationLines lines) observations

/-- The text that decides a number of a policy file. -/
def policyText (lines : List (List Bytes)) (n : PolicyNumber) : Option Bytes :=
  (argumentsOf n.key lines).getLast?

/-- The numbers of a policy are those that its file says, and the others those of the default. -/
def PolicySays (R : Bytes → UInt64 → Prop) (lines : List (List Bytes))
    (policy : ContainmentPolicy) : Prop :=
  ∀ n : PolicyNumber, Said R (policyText lines n) (n.get defaultPolicy) (n.get policy)

/-- The texts that decide the numbers of a topology file. -/
def topologyTexts (lines : List (List Bytes)) : List Bytes :=
  (argumentsOf (bytesOf "generation") lines).getLast?.toList ++
    (nodeLines lines).filterMap weightText ++ (edgeLines lines).filterMap edgeText

/-- The texts that decide the numbers of an evidence file. -/
def evidenceTexts (lines : List (List Bytes)) : List Bytes :=
  (observationLines lines).filterMap (·[2]?) ++ (observationLines lines).filterMap timeText

/-! ## Folds over lines and fields -/

section Folds

variable {σ ε β : Type} {step : σ → ε → Result σ} {R : Bytes → UInt64 → Prop}

/-- What is said of a number twice: the second text decides. -/
theorem Said.trans {texts : List Bytes} {text : Option Bytes} {absent value value' : UInt64}
    (h : Said R text absent value) (h' : Said R texts.getLast? value value') :
    Said R (text.toList ++ texts).getLast? absent value' := by
  cases text with
  | none =>
    obtain rfl : value = absent := h
    exact h'
  | some text =>
    cases texts with
    | nil =>
      obtain rfl : value' = value := h'
      exact h
    | cons next texts =>
      rw [Option.toList_some, List.singleton_append, List.getLast?_cons_cons]
      rw [List.getLast?_eq_some_getLast (List.cons_ne_nil next texts)] at h' ⊢
      exact h'

/-- If a step sets a number only to what its line says, the last line that says something
decides. -/
theorem foldlM_said {say : ε → Option Bytes} {f : σ → UInt64} {as : List ε} {s s' : σ}
    (h : as.foldlM step s = .ok s')
    (hstep : ∀ s a s', step s a = .ok s' → Said R (say a) (f s) (f s')) :
    Said R (as.filterMap say).getLast? (f s) (f s') := by
  induction as generalizing s with
  | nil =>
    rw [List.foldlM_nil, pure_eq_ok] at h
    rw [h]
    rfl
  | cons a as ih =>
    rw [List.foldlM_cons, bind_eq_ok] at h
    obtain ⟨s₁, hfirst, hrest⟩ := h
    have hsaid := (hstep s a s₁ hfirst).trans (ih hrest)
    cases hsay : say a with
    | none => simpa [hsay] using hsaid
    | some text => simpa [hsay] using hsaid

/-- If a step adds an entry for its line, or none if the line is of another kind, the entries are those
of the lines of the kind. -/
theorem foldlM_forall₂ {kind : ε → Bool} {P : ε → β → Prop} {f : σ → List β} {as : List ε}
    {s s' : σ} (h : as.foldlM step s = .ok s')
    (hstep : ∀ s a s', step s a = .ok s' →
      if kind a = true then ∃ b, f s' = f s ++ [b] ∧ P a b else f s' = f s) :
    ∃ bs, f s' = f s ++ bs ∧ List.Forall₂ P (as.filter kind) bs := by
  induction as generalizing s with
  | nil =>
    rw [List.foldlM_nil, pure_eq_ok] at h
    exact ⟨[], by rw [h, List.append_nil], .nil⟩
  | cons a as ih =>
    rw [List.foldlM_cons, bind_eq_ok] at h
    obtain ⟨s₁, hfirst, hrest⟩ := h
    have hadded := hstep s a s₁ hfirst
    obtain ⟨bs, hrest, hall⟩ := ih hrest
    cases hkind : kind a with
    | true =>
      rw [if_pos hkind] at hadded
      obtain ⟨b, hfirst, hb⟩ := hadded
      refine ⟨b :: bs, by rw [hrest, hfirst, List.append_assoc]; rfl, ?_⟩
      rw [List.filter_cons_of_pos hkind]
      exact .cons hb hall
    | false =>
      have hnot : ¬ kind a = true := by rw [hkind]; decide
      rw [if_neg hnot] at hadded
      rw [List.filter_cons_of_neg hnot]
      exact ⟨bs, by rw [hrest, hadded], hall⟩

/-- If a relation holds for lines under a condition on the line, it holds for all of them exactly under
the condition on all. -/
theorem forall₂_iff {P Q : ε → β → Prop} {C : ε → Prop} {as : List ε} {bs : List β}
    (h : List.Forall₂ P as bs) (hiff : ∀ a b, P a b → (Q a b ↔ C a)) :
    List.Forall₂ Q as bs ↔ ∀ a ∈ as, C a := by
  induction h with
  | nil => simp
  | cons hab _ ih => rw [List.forall₂_cons, List.forall_mem_cons, hiff _ _ hab, ih]

end Folds

/-- A field is kept when it is the first of its name. -/
theorem valuesOf_emplace (name : Bytes) (kept : List Field) (field : Field) :
    valuesOf name (emplace kept field) =
      if valuesOf name kept = [] then valuesOf name [field] else valuesOf name kept := by
  have hany : (kept.any fun other => other.1 == field.1) = true ↔ valuesOf field.1 kept ≠ [] := by
    simp [valuesOf, List.filterMap_eq_nil_iff]
  have happend : valuesOf name (kept ++ [field]) = valuesOf name kept ++ valuesOf name [field] :=
    List.filterMap_append
  unfold emplace
  -- only a field of the name matters, and it is dropped where one was kept
  by_cases hname : field.1 = name
  · subst hname
    split
    · rename_i hkept
      rw [if_neg (hany.mp hkept)]
    · rename_i hnew
      have hnil : valuesOf field.1 kept = [] := not_not.mp (mt hany.mpr hnew)
      rw [happend, if_pos hnil, hnil, List.nil_append]
  · have hnone : valuesOf name [field] = [] := by simp [valuesOf, hname]
    have hsame : (if valuesOf name kept = [] then valuesOf name [field] else valuesOf name kept) =
        valuesOf name kept := by
      split
      · rename_i hnil
        rw [hnone, hnil]
      · rfl
    rw [hsame]
    split
    · rfl
    · rw [happend, hnone, List.append_nil]

/-- Of the fields that are kept there is one of each name, the first. -/
theorem valuesOf_foldl_emplace (name : Bytes) (fields kept : List Field) :
    valuesOf name (fields.foldl emplace kept) =
      if valuesOf name kept = [] then (valuesOf name fields).take 1 else valuesOf name kept := by
  induction fields generalizing kept with
  | nil =>
    split
    · assumption
    · rfl
  | cons field fields ih =>
    have hcons : valuesOf name (field :: fields) = valuesOf name [field] ++ valuesOf name fields := by
      rw [← List.singleton_append]
      exact List.filterMap_append
    -- one field gives at most one value
    have hone : valuesOf name [field] = [] ∨ ∃ text, valuesOf name [field] = [text] := by
      by_cases hname : field.1 = name
      · exact Or.inr ⟨field.2, by simp [valuesOf, hname]⟩
      · exact Or.inl (by simp [valuesOf, hname])
    rw [List.foldl_cons, ih, valuesOf_emplace, hcons]
    by_cases hkept : valuesOf name kept = []
    · rcases hone with hone | ⟨text, hone⟩
      · simp [hkept, hone]
      · simp [hkept, hone]
    · simp [hkept]

/-- The value that a line gives to a name is the one that is kept. -/
theorem valuesOf_parseFields (name : Bytes) (parts : List Bytes) :
    (valuesOf name (parseFields parts)).getLast? = fieldText name parts := by
  rw [parseFields, valuesOf_foldl_emplace, if_pos (show valuesOf name [] = [] from rfl), fieldText]
  cases valuesOf name (parts.filterMap parseField) <;> rfl

/-! ## Every number is read from the text that decides it -/

/-- A text is read as a number. -/
def ReadAs (text : Bytes) (value : UInt64) : Prop := parseNumber text = some value

/-- What must be there is there. -/
theorem expect_ok {α : Type} {value : Option α} {message : String} {a : α}
    (h : expect value message = .ok a) : value = some a := by
  cases value with
  | none => exact absurd h (by simp [expect, fail])
  | some b => exact congrArg some (Except.ok.inj h)

/-- The weight of a node is read from its field. -/
theorem parseNodeField_weight (node : NodeSpec) (field : Field) (node' : NodeSpec)
    (h : parseNodeField node field = .ok node') :
    Said ReadAs (if field.1 = bytesOf "weight" then some field.2 else none) node.weight
      node'.weight := by
  unfold parseNodeField at h
  split at h
  · rename_i hname
    obtain ⟨value, -, h⟩ := bind_eq_ok.mp h
    rw [hname, if_neg (by decide), ← Except.ok.inj h]
    rfl
  split at h
  · rename_i hname
    obtain ⟨value, -, h⟩ := bind_eq_ok.mp h
    rw [hname, if_neg (by decide), ← Except.ok.inj h]
    rfl
  split at h
  · rename_i hname
    obtain ⟨value, hvalue, h⟩ := bind_eq_ok.mp h
    rw [if_pos hname, ← Except.ok.inj h]
    exact expect_ok hvalue
  split at h
  · rename_i hname
    obtain ⟨value, -, h⟩ := bind_eq_ok.mp h
    rw [hname, if_neg (by decide), ← Except.ok.inj h]
    rfl
  · exact absurd h (by simp [fail])

/-- The generation of an edge is read from its field. -/
theorem parseEdgeField_generation (edge : EdgeSpec) (field : Field) (edge' : EdgeSpec)
    (h : parseEdgeField edge field = .ok edge') :
    Said ReadAs (if field.1 = bytesOf "generation" then some field.2 else none) edge.generation
      edge'.generation := by
  unfold parseEdgeField at h
  split at h
  · rename_i hname
    obtain ⟨value, -, h⟩ := bind_eq_ok.mp h
    rw [hname, if_neg (by decide), ← Except.ok.inj h]
    rfl
  split at h
  · rename_i hname
    obtain ⟨value, hvalue, h⟩ := bind_eq_ok.mp h
    rw [if_pos hname, ← Except.ok.inj h]
    exact expect_ok hvalue
  · exact absurd h (by simp [fail])

/-- The time of an observation is read from its field, and its generation is left alone. -/
theorem parseEvidenceField_time (observation : FileObservation) (field : Field)
    (observation' : FileObservation) (h : parseEvidenceField observation field = .ok observation') :
    Said ReadAs (if field.1 = bytesOf "at" then some field.2 else none)
        observation.observed_at_millis observation'.observed_at_millis ∧
      observation'.generation = observation.generation := by
  unfold parseEvidenceField at h
  split at h
  · rename_i hname
    obtain ⟨value, -, h⟩ := bind_eq_ok.mp h
    rw [hname, if_neg (by decide), ← Except.ok.inj h]
    exact ⟨rfl, rfl⟩
  split at h
  · rename_i hname
    obtain ⟨value, hvalue, h⟩ := bind_eq_ok.mp h
    rw [if_pos hname, ← Except.ok.inj h]
    exact ⟨expect_ok hvalue, rfl⟩
  · exact absurd h (by simp [fail])

/-- What an accepted line of a topology file does to the description. -/
inductive DirectiveRead (spec : TopologySpec) : List Bytes → TopologySpec → Prop
  /-- The line has no tokens. -/
  | blank : DirectiveRead spec [] spec
  /-- The generation is set. -/
  | generation {text : Bytes} {value : UInt64} (read : ReadAs text value) :
    DirectiveRead spec [bytesOf "generation", text] { spec with generation := value }
  /-- A node is added. -/
  | node {id : Bytes} {fields : List Bytes} {node : NodeSpec}
      (weight : Said ReadAs (fieldText (bytesOf "weight") fields) 1 node.weight) :
    DirectiveRead spec (bytesOf "node" :: id :: fields) { spec with nodes := spec.nodes ++ [node] }
  /-- An edge is added. -/
  | edge {from_ to_ : Bytes} {fields : List Bytes} {edge : EdgeSpec} {written : UInt64}
      (read : Said ReadAs (fieldText (bytesOf "generation") fields) 0 written)
      (generation : edge.generation = if written = 0 then 1 else written) :
    DirectiveRead spec (bytesOf "edge" :: from_ :: to_ :: fields)
      { spec with edges := spec.edges ++ [edge] }

/-- A line that is accepted is one of these. -/
theorem parseDirective_read {spec spec' : TopologySpec} {line : List Bytes}
    (h : parseDirective spec line = .ok spec') : DirectiveRead spec line spec' := by
  cases line with
  | nil =>
    obtain rfl := Except.ok.inj h
    exact .blank
  | cons directive arguments =>
    rw [parseDirective] at h
    split at h
    · rename_i hgeneration
      obtain ⟨rfl, hone⟩ := hgeneration
      obtain ⟨text, rfl⟩ := List.length_eq_one_iff.mp hone
      obtain ⟨value, hvalue, h⟩ := bind_eq_ok.mp h
      obtain rfl := Except.ok.inj h
      exact .generation (expect_ok hvalue)
    split at h
    · rename_i hnode
      obtain ⟨rfl, hsome⟩ := hnode
      obtain ⟨id, fields, rfl⟩ := List.exists_cons_of_length_pos hsome
      obtain ⟨_, -, h⟩ := bind_eq_ok.mp h
      obtain ⟨node, hfields, h⟩ := bind_eq_ok.mp h
      obtain rfl := Except.ok.inj h
      -- the weight is the field that decides among those that were kept
      have hweight := foldlM_said hfields parseNodeField_weight
      exact .node ((valuesOf_parseFields _ fields) ▸ hweight)
    split at h
    · rename_i hedge
      obtain ⟨rfl, htwo⟩ := hedge
      obtain ⟨from_, rest, rfl⟩ := List.exists_cons_of_length_pos (Nat.lt_of_succ_lt htwo)
      obtain ⟨to_, fields, rfl⟩ := List.exists_cons_of_length_pos (Nat.lt_of_succ_lt_succ htwo)
      obtain ⟨_, -, h⟩ := bind_eq_ok.mp h
      obtain ⟨_, -, h⟩ := bind_eq_ok.mp h
      obtain ⟨edge, hfields, h⟩ := bind_eq_ok.mp h
      obtain rfl := Except.ok.inj h
      have hgeneration := foldlM_said hfields parseEdgeField_generation
      exact .edge ((valuesOf_parseFields _ fields) ▸ hgeneration) rfl
    · exact absurd h (by simp [fail])

@[simp] theorem isDirective_nil (name : Bytes) : IsDirective name [] = false := rfl

@[simp] theorem isDirective_cons (name word : Bytes) (words : List Bytes) :
    IsDirective name (word :: words) = (word == name) := rfl

/-- The generation is the argument of its directive. -/
theorem DirectiveRead.said_generation {spec spec' : TopologySpec} {parts : List Bytes}
    (h : DirectiveRead spec parts spec') :
    Said ReadAs (if IsDirective (bytesOf "generation") parts then parts[1]? else none)
      spec.generation spec'.generation := by
  cases h with
  | blank => rfl
  | generation read =>
    rw [isDirective_cons, if_pos (by decide)]
    exact read
  | node =>
    rw [isDirective_cons, if_neg (by decide)]
    rfl
  | edge =>
    rw [isDirective_cons, if_neg (by decide)]
    rfl

/-- A node is added for its directive. -/
theorem DirectiveRead.nodes {spec spec' : TopologySpec} {line : List Bytes}
    (h : DirectiveRead spec line spec') :
    if IsDirective (bytesOf "node") line = true then
      ∃ node, spec'.nodes = spec.nodes ++ [node] ∧ NodeSays ReadAs line node
    else spec'.nodes = spec.nodes := by
  cases h with
  | blank => rfl
  | generation =>
    rw [isDirective_cons, if_neg (by decide)]
  | @node _ _ node weight =>
    rw [isDirective_cons, if_pos (by decide)]
    exact ⟨node, rfl, weight⟩
  | edge =>
    rw [isDirective_cons, if_neg (by decide)]

/-- An edge is added for its directive. -/
theorem DirectiveRead.edges {spec spec' : TopologySpec} {line : List Bytes}
    (h : DirectiveRead spec line spec') :
    if IsDirective (bytesOf "edge") line = true then
      ∃ edge, spec'.edges = spec.edges ++ [edge] ∧ EdgeSays ReadAs line edge
    else spec'.edges = spec.edges := by
  cases h with
  | blank => rfl
  | generation =>
    rw [isDirective_cons, if_neg (by decide)]
  | node =>
    rw [isDirective_cons, if_neg (by decide)]
  | @edge _ _ _ edge written read generation =>
    rw [isDirective_cons, if_pos (by decide)]
    exact ⟨edge, rfl, written, read, generation⟩

/-- A file that was read was opened, and its lines were taken one after the other. -/
theorem tokens_of_ok {σ : Type} {step : σ → List Bytes → Result σ} {file : Option Bytes} {s s' : σ}
    (h : (readLines file >>= fun lines => (lines.map split).foldlM step s) = .ok s') :
    (tokens file).foldlM step s = .ok s' := by
  obtain ⟨lines, hlines, h⟩ := bind_eq_ok.mp h
  rw [tokens, hlines]
  exact h

/-- The numbers of a topology file are read from the texts that decide them. -/
theorem topologySays_read {file : Option Bytes} {spec : TopologySpec}
    (h : parseTopologyFile file = .ok spec) : TopologySays ReadAs (tokens file) spec := by
  have hfold := tokens_of_ok h
  obtain ⟨nodes, hnodes, hweights⟩ := foldlM_forall₂ (f := TopologySpec.nodes) hfold
    fun _ _ _ hstep => (parseDirective_read hstep).nodes
  obtain ⟨edges, hedges, hgenerations⟩ := foldlM_forall₂ (f := TopologySpec.edges) hfold
    fun _ _ _ hstep => (parseDirective_read hstep).edges
  refine ⟨foldlM_said (f := TopologySpec.generation) hfold
    fun _ _ _ hstep => (parseDirective_read hstep).said_generation, ?_, ?_⟩
  · rw [show spec.nodes = nodes from hnodes]
    exact hweights
  · rw [show spec.edges = edges from hedges]
    exact hgenerations

/-- The fields of an observation leave its generation alone. -/
theorem foldlM_generation {fields : List Field} {observation observation' : FileObservation}
    (h : fields.foldlM parseEvidenceField observation = .ok observation') :
    observation'.generation = observation.generation := by
  induction fields generalizing observation with
  | nil =>
    rw [List.foldlM_nil, pure_eq_ok] at h
    rw [h]
  | cons field fields ih =>
    rw [List.foldlM_cons, bind_eq_ok] at h
    obtain ⟨observation₁, hfirst, hrest⟩ := h
    exact (ih hrest).trans (parseEvidenceField_time _ _ _ hfirst).2

/-- An observation is added for a line with tokens. -/
theorem parseEvidenceLine_read {observations observations' : List FileObservation}
    {line : List Bytes} (h : parseEvidenceLine observations line = .ok observations') :
    if (!line.isEmpty) = true then
      ∃ observation, observations' = observations ++ [observation] ∧
        ObservationSays ReadAs line observation
    else observations' = observations := by
  unfold parseEvidenceLine at h
  split at h
  · exact (Except.ok.inj h).symm
  · rename_i resource state generation fields
    rw [if_pos (by simp)]
    obtain ⟨_, -, h⟩ := bind_eq_ok.mp h
    obtain ⟨_, -, h⟩ := bind_eq_ok.mp h
    obtain ⟨value, hvalue, h⟩ := bind_eq_ok.mp h
    obtain ⟨observation, hfields, h⟩ := bind_eq_ok.mp h
    obtain rfl := Except.ok.inj h
    have hgeneration := foldlM_generation hfields
    have htime := foldlM_said (f := FileObservation.observed_at_millis) hfields
      fun s field s' hstep => (parseEvidenceField_time s field s' hstep).1
    refine ⟨observation, rfl, ?_, ?_⟩
    · show ReadAs generation observation.generation
      rw [hgeneration]
      exact expect_ok hvalue
    · show Said ReadAs (fieldText (bytesOf "at") fields) 0 observation.observed_at_millis
      rw [← valuesOf_parseFields]
      exact htime
  · exact absurd h (by simp [fail])

/-- The numbers of an evidence file are read from the texts that decide them. -/
theorem evidenceSays_read {file : Option Bytes} {observations : List FileObservation}
    (h : parseEvidenceFile file = .ok observations) :
    EvidenceSays ReadAs (tokens file) observations := by
  obtain ⟨added, hadded, hall⟩ := foldlM_forall₂ (f := id) (tokens_of_ok h)
    fun _ _ _ hstep => parseEvidenceLine_read hstep
  rw [show observations = added from hadded]
  exact hall

/-- A number of a policy is the argument of its key. -/
theorem parsePolicyDirective_said (n : PolicyNumber) (policy : ContainmentPolicy)
    (parts : List Bytes) (policy' : ContainmentPolicy)
    (h : parsePolicyDirective policy parts = .ok policy') :
    Said ReadAs (if IsDirective n.key parts then parts[1]? else none) (n.get policy)
      (n.get policy') := by
  have hparts : parts = [] ∧ policy' = policy ∨ ∃ key value, parts = [key, value] := by
    unfold parsePolicyDirective at h
    split at h
    · exact Or.inl ⟨rfl, (Except.ok.inj h).symm⟩
    · exact Or.inr ⟨_, _, rfl⟩
    · exact absurd h (by simp [fail])
  rcases hparts with ⟨rfl, rfl⟩ | ⟨key, value, rfl⟩
  · rfl
  rw [isDirective_cons]
  rcases parsePolicyDirective_ok h with ⟨m, number, rfl, hread, rfl⟩ | ⟨hother, hsame⟩
  · rw [PolicyNumber.get_set]
    -- another key leaves the number alone, since keys are told apart
    by_cases hnm : n = m
    · rw [if_pos hnm, if_pos (by simp [hnm])]
      exact hread
    · have hkey : ¬ (m.key == n.key) = true := fun heq =>
        hnm (PolicyNumber.key_injective (beq_iff_eq.mp heq)).symm
      rw [if_neg hnm, if_neg hkey]
      rfl
  · rw [if_neg (by simpa using hother n)]
    exact hsame n

/-- The numbers of a policy file are read from the texts that decide them. -/
theorem policySays_read {file : Option Bytes} {policy : ContainmentPolicy}
    (h : parsePolicyFile file = .ok policy) : PolicySays ReadAs (tokens file) policy :=
  fun n => foldlM_said (tokens_of_ok h) (parsePolicyDirective_said n)

/-! ## Exact numbers -/

/-- What was read from a text is what the text says, exactly if the text does not wrap. -/
theorem said_exact_iff {text : Option Bytes} {absent value : UInt64}
    (h : Said ReadAs text absent value) :
    Said Exact text absent value ↔ ∀ t ∈ text, ¬ Wraps t := by
  cases text with
  | none => exact iff_of_true h fun t ht => absurd ht (by simp)
  | some text =>
    constructor
    · intro hexact t ht
      obtain rfl := Option.some.inj ht
      exact Exact.not_wraps hexact
    · intro hfits
      exact exact_of_parseNumber h (hfits text rfl)

/-- So it is for the generation of an edge: zero is written in no other way than one that is exact. -/
theorem edgeSays_iff {line : List Bytes} {edge : EdgeSpec} (h : EdgeSays ReadAs line edge) :
    EdgeSays Exact line edge ↔ ∀ t ∈ edgeText line, ¬ Wraps t := by
  obtain ⟨written, hread, hedge⟩ := h
  constructor
  -- any exact value of the text rules out that it wraps, whichever was written
  · rintro ⟨other, hexact, -⟩ t ht
    rw [Option.mem_def.mp ht] at hexact
    exact Exact.not_wraps hexact
  · exact fun hfits => ⟨written, (said_exact_iff hread).mpr hfits, hedge⟩

/-- What holds of the texts of some lines holds of the text of each. -/
theorem forall_mem_filterMap {say : List Bytes → Option Bytes} {C : Bytes → Prop}
    {lines : List (List Bytes)} :
    (∀ text ∈ lines.filterMap say, C text) ↔ ∀ line ∈ lines, ∀ text ∈ say line, C text := by
  constructor
  · exact fun h line hline text htext => h text (List.mem_filterMap.mpr ⟨line, hline, htext⟩)
  · intro h text htext
    obtain ⟨line, hline, htext⟩ := List.mem_filterMap.mp htext
    exact h line hline text htext

/-- The numbers of a topology are those that its file says, exactly if no text that decides one
wraps. -/
theorem topologySays_iff {file : Option Bytes} {spec : TopologySpec}
    (h : parseTopologyFile file = .ok spec) :
    TopologySays Exact (tokens file) spec ↔ ∀ text ∈ topologyTexts (tokens file), ¬ Wraps text := by
  obtain ⟨hgeneration, hnodes, hedges⟩ := topologySays_read h
  have hgeneration : _ ↔ ∀ text, (argumentsOf (bytesOf "generation") (tokens file)).getLast? =
    some text → ¬ Wraps text := said_exact_iff hgeneration
  have hnodes : List.Forall₂ (NodeSays Exact) _ _ ↔ _ :=
    forall₂_iff hnodes fun line node hread => @said_exact_iff _ _ node.weight hread
  have hedges : List.Forall₂ (EdgeSays Exact) _ _ ↔ _ :=
    forall₂_iff hedges fun line edge hread => edgeSays_iff hread
  rw [topologyTexts, List.forall_mem_append, List.forall_mem_append, forall_mem_filterMap,
    forall_mem_filterMap, ← hnodes, ← hedges]
  simp only [Option.mem_toList]
  rw [← hgeneration, and_assoc]
  exact ⟨fun hexact => ⟨hexact.generation, hexact.nodes, hexact.edges⟩, fun hall =>
    ⟨hall.1, hall.2.1, hall.2.2⟩⟩

/-- The numbers of an evidence file are those that it says, exactly if no text that decides one
wraps. -/
theorem evidenceSays_iff {file : Option Bytes} {observations : List FileObservation}
    (h : parseEvidenceFile file = .ok observations) :
    EvidenceSays Exact (tokens file) observations ↔
      ∀ text ∈ evidenceTexts (tokens file), ¬ Wraps text := by
  have hlines : List.Forall₂ (ObservationSays Exact) _ _ ↔ _ :=
    forall₂_iff (evidenceSays_read h) fun line observation hread =>
      and_congr (said_exact_iff hread.1) (said_exact_iff hread.2)
  rw [EvidenceSays, hlines, evidenceTexts, List.forall_mem_append, forall_mem_filterMap,
    forall_mem_filterMap]
  exact ⟨fun hall => ⟨fun line hline => (hall line hline).1, fun line hline => (hall line hline).2⟩,
    fun hall line hline => ⟨hall.1 line hline, hall.2 line hline⟩⟩

/-- The numbers of a policy file are those that it says, exactly if no text that decides one
wraps. -/
theorem policySays_iff {file : Option Bytes} {policy : ContainmentPolicy}
    (h : parsePolicyFile file = .ok policy) :
    PolicySays Exact (tokens file) policy ↔
      ∀ n : PolicyNumber, ∀ text ∈ policyText (tokens file) n, ¬ Wraps text :=
  forall_congr' fun n => said_exact_iff (policySays_read h n)

/-- Numbers in configuration files are exact or refused, unless they wrap. A text is read as its value
or refused, as the store's reader does, if and only if it is not a text of twenty digits whose value
does not fit in 64 bits; and the numbers of a file that is accepted are those that it says if and only
if none of the texts that decide them is such a text. -/
theorem config_numbers_exact_iff (text : Bytes) (file : Option Bytes) :
    (ExactOrRefused text ↔ ¬ Wraps text) ∧
      (∀ spec, parseTopologyFile file = .ok spec →
        (TopologySays Exact (tokens file) spec ↔
          ∀ text ∈ topologyTexts (tokens file), ¬ Wraps text)) ∧
      (∀ observations, parseEvidenceFile file = .ok observations →
        (EvidenceSays Exact (tokens file) observations ↔
          ∀ text ∈ evidenceTexts (tokens file), ¬ Wraps text)) ∧
      ∀ policy, parsePolicyFile file = .ok policy →
        (PolicySays Exact (tokens file) policy ↔
          ∀ n : PolicyNumber, ∀ text ∈ policyText (tokens file) n, ¬ Wraps text) :=
  ⟨exactOrRefused_iff text, fun _ => topologySays_iff, fun _ => evidenceSays_iff,
    fun _ => policySays_iff⟩

/-- A policy file with the largest bound that fits. -/
def largestPolicy : Bytes := bytesOf "generation 2\nmax_boundary_weight 18446744073709551615\n"

/-- The largest number is read exactly, alone and in a file. -/
theorem config_numbers_exact_iff_largest :
    ExactOrRefused (bytesOf "18446744073709551615") ∧
      ∃ policy, parsePolicyFile (some largestPolicy) = .ok policy ∧
        policy.max_boundary_weight.toNat = 2 ^ 64 - 1 ∧
          PolicySays Exact (tokens (some largestPolicy)) policy := by
  have hfits {text : Bytes} (h : decimalValue text < 2 ^ 64) : ¬ Wraps text :=
    fun hwraps => absurd h (Nat.not_lt.mpr hwraps.le)
  have hparsed : parsePolicyFile (some largestPolicy) =
      .ok { defaultPolicy with generation := 2, max_boundary_weight := 18446744073709551615 } := by
    decide +kernel
  obtain ⟨htext, -, -, hpolicy⟩ :=
    config_numbers_exact_iff (bytesOf "18446744073709551615") (some largestPolicy)
  refine ⟨htext.mpr (hfits (by decide +kernel)), _, hparsed, by decide, ?_⟩
  refine (hpolicy _ hparsed).mpr fun n text htext => hfits ?_
  have hall : ((policyText (tokens (some largestPolicy)) n).all fun text =>
      decide (decimalValue text < 2 ^ 64)) = true := by
    cases n <;> decide +kernel
  exact of_decide_eq_true (Option.all_eq_true _ _ |>.mp hall text htext)

/-! ## A bound that wraps -/

/-- The text of 2^64 + 4. -/
def wrapping : Bytes := bytesOf "18446744073709551620"

/-- A policy file with this bound on the weight of a boundary. -/
def wrappingPolicy : Bytes := bytesOf "generation 2\nmax_boundary_weight 18446744073709551620\n"

/-- The text is read as four, and the store's reader refuses it; the policy that is read from the file
bounds the weight by four. -/
theorem wrapping_not_exact :
    parseNumber wrapping = some 4 ∧ parseU64 wrapping = none ∧ ¬ (∀ text, ExactOrRefused text) ∧
      ∃ policy, parsePolicyFile (some wrappingPolicy) = .ok policy ∧
        policy.max_boundary_weight = 4 ∧ ¬ PolicySays Exact (tokens (some wrappingPolicy)) policy := by
  have hread : parseNumber wrapping = some 4 := by decide +kernel
  have hrefused : parseU64 wrapping = none := by decide +kernel
  have hparsed : parsePolicyFile (some wrappingPolicy) =
      .ok { defaultPolicy with generation := 2, max_boundary_weight := 4 } := by decide +kernel
  have hsaid : policyText (tokens (some wrappingPolicy)) .maxBoundaryWeight = some wrapping := by
    decide +kernel
  refine ⟨hread, hrefused, fun h => ?_, _, hparsed, rfl, fun h => ?_⟩
  · have hagrees := (h wrapping).agrees
    rw [hread, hrefused] at hagrees
    exact absurd hagrees (by simp)
  · have hexact := h .maxBoundaryWeight
    rw [hsaid] at hexact
    have hvalue : ¬ Exact wrapping 4 := by
      unfold Exact
      decide +kernel
    exact hvalue hexact

end Fcfn.ConfigText
