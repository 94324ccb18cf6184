import Fcfn.Store.Record
import Mathlib.Data.List.DropRight

/-!
# File names and the CURRENT pointer

Numbers are written in hexadecimal in the names of the files and in decimal in the CURRENT pointer.
`decodeCurrent_encode` says that a pointer is read back from the text that names it, and the name
lemmas that no two files of a store share a name. -/

namespace Fcfn

open Words

/-! ## Numbers in texts -/

/-- A hexadecimal digit. -/
def hexDigit (n : ℕ) : UInt8 := if n < 10 then byteOf '0' + n.toUInt8 else byteOf 'a' + (n - 10).toUInt8

/-- The hexadecimal digits of a number, of the lowest `k`. -/
def hexDigits : ℕ → ℕ → Bytes
  | 0, _ => []
  | k + 1, n => hexDigits k (n / 16) ++ [hexDigit (n % 16)]

/-- A number in decimal, as `std::to_string` writes it. -/
def toDecimal (n : UInt64) : Bytes := (Nat.toDigits 10 n.toNat).map byteOf

/-- The digits of a decimal number, from the first. -/
def parseDigits : ℕ → Bytes → Option ℕ
  | value, [] => some value
  | value, c :: text =>
    if c < byteOf '0' ∨ c > byteOf '9' then none
    else
      let digit := (c - byteOf '0').toNat
      if value > (kMaxUInt64 - digit) / 10 then none else parseDigits (value * 10 + digit) text

/-- Parse a decimal number of 64 bits. -/
def parseU64 (text : Bytes) : Option UInt64 :=
  if text = [] ∨ text.length > 20 then none else (parseDigits 0 text).map UInt64.ofNat

@[simp] theorem length_hexDigits (k n : ℕ) : (hexDigits k n).length = k := by
  induction k generalizing n with
  | zero => rfl
  | succ k ih => simp [hexDigits, ih]

/-- Digits below sixteen are told apart. -/
theorem hexDigit_injective {m n : ℕ} (hm : m < 16) (hn : n < 16) (h : hexDigit m = hexDigit n) :
    m = n := by
  have hall : ∀ m < 16, ∀ n < 16, hexDigit m = hexDigit n → m = n := by decide
  exact hall m hm n hn h

/-- Numbers that fit are told apart. -/
theorem hexDigits_injective {k m n : ℕ} (hm : m < 16 ^ k) (hn : n < 16 ^ k)
    (h : hexDigits k m = hexDigits k n) : m = n := by
  induction k generalizing m n with
  | zero => omega
  | succ k ih =>
    obtain ⟨hhigh, hlow⟩ := List.append_inj h (by simp)
    rw [pow_succ] at hm hn
    have hquotient := ih (by omega) (by omega) hhigh
    have hremainder := hexDigit_injective (Nat.mod_lt m (by decide)) (Nat.mod_lt n (by decide))
      (List.singleton_inj.mp hlow)
    omega

/-- No hexadecimal digit is a blank or ends a line. -/
theorem mem_hexDigits {k n : ℕ} {c : UInt8} (h : c ∈ hexDigits k n) :
    c ≠ byteOf ' ' ∧ c ≠ byteOf '\n' ∧ c ≠ byteOf '\r' := by
  induction k generalizing n with
  | zero => exact absurd h (by simp [hexDigits])
  | succ k ih =>
    rcases List.mem_append.mp h with hhigh | hlow
    · exact ih hhigh
    · obtain rfl := List.mem_singleton.mp hlow
      have hdigit : ∀ d < 16, hexDigit d ≠ byteOf ' ' ∧ hexDigit d ≠ byteOf '\n' ∧
          hexDigit d ≠ byteOf '\r' := by decide
      exact hdigit _ (Nat.mod_lt n (by decide))

/-- The byte of a decimal digit is in the range of digits, and its digit is the number. -/
theorem digit_byteOf {c : Char} (h : c.isDigit = true) :
    ¬ (byteOf c < byteOf '0' ∨ byteOf c > byteOf '9') ∧
      (byteOf c - byteOf '0').toNat = c.toNat - '0'.toNat := by
  have hrange : 48 ≤ c.toNat ∧ c.toNat < 58 := by
    simp only [Char.isDigit, Bool.and_eq_true, decide_eq_true_eq, ge_iff_le,
      UInt32.le_iff_toNat_le] at h
    exact ⟨h.1, Nat.lt_succ_of_le h.2⟩
  have hbytes : ∀ n < 58, 48 ≤ n → ¬ (n.toUInt8 < byteOf '0' ∨ n.toUInt8 > byteOf '9') ∧
      (n.toUInt8 - byteOf '0').toNat = n - '0'.toNat := by
    decide
  exact hbytes c.toNat hrange.2 hrange.1

/-- Parsing digits reads their number, when it fits. -/
theorem parseDigits_map {text : List Char} (hdigits : ∀ c ∈ text, c.isDigit = true) {value : ℕ}
    (hmax : Nat.ofDigitChars 10 text value ≤ kMaxUInt64) :
    parseDigits value (text.map byteOf) = some (Nat.ofDigitChars 10 text value) := by
  induction text generalizing value with
  | nil => simp [parseDigits]
  | cons c text ih =>
    obtain ⟨hrange, hdigit⟩ := digit_byteOf (hdigits c (by simp))
    rw [Nat.ofDigitChars_cons] at hmax ⊢
    have hge : 10 * value + (c.toNat - '0'.toNat) ≤ kMaxUInt64 := by
      rw [Nat.ofDigitChars_eq_ofDigitChars_zero] at hmax
      have hpow : 0 < 10 ^ text.length := Nat.pow_pos (by decide)
      exact (Nat.le_mul_of_pos_left _ hpow).trans (Nat.le_of_add_right_le hmax)
    rw [List.map_cons, parseDigits, if_neg hrange]
    simp only [hdigit]
    rw [if_neg (by omega), mul_comm value 10]
    exact ih (fun d hd => hdigits d (by simp [hd])) hmax

/-- A number is read back from its decimal form. -/
theorem parseU64_toDecimal (n : UInt64) : parseU64 (toDecimal n) = some n := by
  have hlt : n.toNat < 10 ^ 20 := lt_trans n.toNat_lt (by decide)
  have hlength : (Nat.toDigits 10 n.toNat).length ≤ 20 :=
    (Nat.length_toDigits_le_iff (by decide) (by decide)).mpr hlt
  have hmax : Nat.ofDigitChars 10 (Nat.toDigits 10 n.toNat) 0 ≤ kMaxUInt64 := by
    rw [Nat.ofDigitChars_ten_toDigits]
    have hn := n.toNat_lt
    unfold kMaxUInt64
    omega
  have hparsed := parseDigits_map (fun c hc => Nat.isDigit_of_mem_toDigits (by decide) (by decide) hc)
    hmax
  unfold parseU64 toDecimal
  rw [if_neg (by simp [Nat.toDigits_ne_nil, hlength]), hparsed, Nat.ofDigitChars_ten_toDigits,
    Option.map_some, UInt64.ofNat_toNat]

/-- A decimal number has no byte that ends a field or a line. -/
theorem mem_toDecimal {n : UInt64} {c : UInt8} (h : c ∈ toDecimal n) :
    c ≠ byteOf ' ' ∧ c ≠ byteOf '\n' := by
  obtain ⟨d, hd, rfl⟩ := List.mem_map.mp h
  have hrange := (digit_byteOf (Nat.isDigit_of_mem_toDigits (by decide) (by decide) hd)).1
  constructor
  · intro hblank
    rw [hblank] at hrange
    exact hrange (by decide)
  · intro hend
    rw [hend] at hrange
    exact hrange (by decide)

/-! ## File names -/

/-- The name of a snapshot. -/
def snapshotPathFor (sequence : SnapshotSequence) : Bytes :=
  bytesOf "snapshot-" ++ hexDigits 16 sequence.toNat ++ bytesOf ".fcfn"

/-- The name of a log segment. -/
def walPathFor (segment : SnapshotSequence) : Bytes :=
  bytesOf "wal-" ++ hexDigits 16 segment.toNat ++ bytesOf ".fcfn"

/-- The name of the pointer. -/
def currentPath : Bytes := bytesOf "CURRENT"

/-- The name of the lock. -/
def lockPath : Bytes := bytesOf "LOCK"

/-- The name under which a file is written before it replaces another. -/
def temporaryFor (target : Bytes) : Bytes := target ++ bytesOf ".tmp"

@[simp] theorem length_snapshotPathFor (sequence : SnapshotSequence) :
    (snapshotPathFor sequence).length = 30 := by
  simp [snapshotPathFor, bytesOf]

@[simp] theorem length_walPathFor (segment : SnapshotSequence) :
    (walPathFor segment).length = 25 := by
  simp [walPathFor, bytesOf]

@[simp] theorem length_currentPath : currentPath.length = 7 := by decide

@[simp] theorem length_lockPath : lockPath.length = 4 := by decide

@[simp] theorem length_temporaryFor (target : Bytes) :
    (temporaryFor target).length = target.length + 4 := by
  simp [temporaryFor, bytesOf]

/-- Names of different lengths are different. -/
theorem ne_of_length {name other : Bytes} (h : name.length ≠ other.length) : name ≠ other :=
  fun heq => h (congrArg List.length heq)

/-- Snapshots have their own names. -/
theorem snapshotPathFor_injective {m n : SnapshotSequence}
    (h : snapshotPathFor m = snapshotPathFor n) : m = n := by
  have hdigits := List.append_cancel_left (List.append_cancel_right h)
  exact UInt64.toNat_inj.mp (hexDigits_injective m.toNat_lt n.toNat_lt hdigits)

/-- Log segments have their own names. -/
theorem walPathFor_injective {m n : SnapshotSequence} (h : walPathFor m = walPathFor n) : m = n := by
  have hdigits := List.append_cancel_left (List.append_cancel_right h)
  exact UInt64.toNat_inj.mp (hexDigits_injective m.toNat_lt n.toNat_lt hdigits)

/-! ## The pointer -/

/-- The active snapshot, zero when there is none, and the active log segment. -/
structure CurrentPointer where
  snapshot : SnapshotSequence := 0
  wal : SnapshotSequence := 0
  deriving DecidableEq, Repr

/-- The first line of the pointer. -/
def kCurrentMagic : Bytes := bytesOf "fcfn-store 1"

/-- The lines of the pointer that its checksum covers. -/
def encodeCurrentFields (pointer : CurrentPointer) : Bytes :=
  kCurrentMagic ++ bytesOf "\nsnapshot " ++ toDecimal pointer.snapshot ++ bytesOf "\nwal " ++
    toDecimal pointer.wal ++ bytesOf "\n"

/-- The text of the pointer. -/
def encodeCurrent (pointer : CurrentPointer) : Bytes :=
  encodeCurrentFields pointer ++ (bytesOf "crc " ++
    (hexDigits 8 (crc32c (encodeCurrentFields pointer)).toNat ++ bytesOf "\n"))

/-- The offset of the last occurrence of a text. -/
def rfind (pattern : Bytes) : Bytes → Option ℕ
  | [] => none
  | c :: text =>
    match rfind pattern text with
    | some offset => some (offset + 1)
    | none => if pattern.isPrefixOf (c :: text) then some 0 else none

/-- A line without its end, and what follows it. -/
def parseLine (text : Bytes) : Option (Bytes × Bytes) :=
  if byteOf '\n' ∈ text then
    some (text.takeWhile (· != byteOf '\n'), (text.dropWhile (· != byteOf '\n')).drop 1)
  else none

/-- What is before the first blank of a line. -/
def lineKey (line : Bytes) : Bytes := line.takeWhile (· != byteOf ' ')

/-- What is after it. -/
def lineValue (line : Bytes) : Bytes := (line.dropWhile (· != byteOf ' ')).drop 1

/-- The pointer as far as its fields were read: each at most a number. -/
structure PartialPointer where
  snapshot : Option SnapshotSequence := none
  wal : Option SnapshotSequence := none

/-- Read the fields, one a line. Every line takes a byte at least, so as much fuel as there are bytes
is enough. -/
def parseFields : ℕ → Bytes → PartialPointer → Result PartialPointer
  | _, [], pointer => .ok pointer
  | 0, _ :: _, _ => fail .corrupt "CURRENT pointer is malformed"
  | fuel + 1, text, pointer =>
    match parseLine text with
    | none => fail .corrupt "CURRENT pointer is malformed"
    | some (line, rest) =>
      if lineKey line = bytesOf "snapshot" then
        match parseU64 (lineValue line) with
        | none => fail .corrupt "CURRENT snapshot sequence is malformed"
        | some n => parseFields fuel rest { pointer with snapshot := some n }
      else if lineKey line = bytesOf "wal" then
        match parseU64 (lineValue line) with
        | none => fail .corrupt "CURRENT log sequence is malformed"
        | some n => parseFields fuel rest { pointer with wal := some n }
      else fail .corrupt "CURRENT pointer has an unknown field"

/-- Decode the pointer. -/
def decodeCurrent (bytes : Bytes) : Result CurrentPointer := do
  require (!(bytes == [] || bytes.length > 4096)) .corrupt
    "CURRENT pointer has an impossible size"
  match rfind (bytesOf "crc ") bytes with
  | none => fail .corrupt "CURRENT pointer has no integrity field"
  | some marker =>
    let text := bytes.take marker
    let trimmed := (bytes.drop (marker + 4)).rdropWhile
      fun c => c == byteOf '\n' || c == byteOf '\r'
    require (trimmed == hexDigits 8 (crc32c text).toNat) .corrupt
      "CURRENT pointer integrity check failed"
    match parseLine text with
    | none => fail .corrupt "CURRENT pointer header mismatch"
    | some (line, rest) =>
      require (line == kCurrentMagic) .corrupt "CURRENT pointer header mismatch"
      match ← parseFields rest.length rest {} with
      | ⟨some snapshot, some wal⟩ =>
        require (wal != 0) .corrupt "CURRENT pointer is incomplete"
        return ⟨snapshot, wal⟩
      | _ => fail .corrupt "CURRENT pointer is incomplete"

/-! ## A pointer is read back -/

/-- A text without a blank does not hold the mark of the checksum. -/
theorem rfind_eq_none {text : Bytes} (h : byteOf ' ' ∉ text) :
    rfind (bytesOf "crc ") text = none := by
  induction text with
  | nil => rfl
  | cons c text ih =>
    rw [rfind, ih fun hmem => h (by simp [hmem])]
    simp only
    rw [if_neg]
    intro hlead
    have hmem := (List.isPrefixOf_iff_prefix.mp hlead).subset
      (show byteOf ' ' ∈ bytesOf "crc " by decide)
    exact h hmem

/-- The mark is found where only what it starts follows. -/
theorem rfind_append {text rest : Bytes} (h : byteOf ' ' ∉ rest) :
    rfind (bytesOf "crc ") (text ++ (bytesOf "crc " ++ rest)) = some text.length := by
  induction text with
  | nil =>
    -- none of the three suffixes of the mark starts another one
    have hblank : (bytesOf "crc ").isPrefixOf (byteOf ' ' :: rest) = false := rfl
    have hc : (bytesOf "crc ").isPrefixOf (byteOf 'c' :: byteOf ' ' :: rest) = false := rfl
    have hr : (bytesOf "crc ").isPrefixOf (byteOf 'r' :: byteOf 'c' :: byteOf ' ' :: rest) = false :=
      rfl
    have hmark : (bytesOf "crc ").isPrefixOf
        (byteOf 'c' :: byteOf 'r' :: byteOf 'c' :: byteOf ' ' :: rest) = true := by
      exact List.isPrefixOf_iff_prefix.mpr ⟨rest, rfl⟩
    show rfind (bytesOf "crc ") (byteOf 'c' :: byteOf 'r' :: byteOf 'c' :: byteOf ' ' :: rest) = some 0
    simp only [rfind, rfind_eq_none h, hblank, hc, hr, hmark, Bool.false_eq_true, if_false, if_true]
  | cons c text ih => rw [List.cons_append, rfind, ih, List.length_cons]

/-- A line is read up to its end. -/
theorem parseLine_append {line : Bytes} (rest : Bytes) (h : byteOf '\n' ∉ line) :
    parseLine (line ++ byteOf '\n' :: rest) = some (line, rest) := by
  have hall : ∀ c ∈ line, (c != byteOf '\n') = true := by
    intro c hc
    simp only [bne_iff_ne, ne_eq]
    rintro rfl
    exact h hc
  rw [parseLine, if_pos (by simp), List.takeWhile_append_of_pos hall,
    List.dropWhile_append_of_pos hall]
  simp

/-- A line of a key and a value. -/
theorem lineKey_append {key : Bytes} (value : Bytes) (h : byteOf ' ' ∉ key) :
    lineKey (key ++ byteOf ' ' :: value) = key ∧ lineValue (key ++ byteOf ' ' :: value) = value := by
  have hall : ∀ c ∈ key, (c != byteOf ' ') = true := by
    intro c hc
    simp only [bne_iff_ne, ne_eq]
    rintro rfl
    exact h hc
  rw [lineKey, lineValue, List.takeWhile_append_of_pos hall, List.dropWhile_append_of_pos hall]
  simp

/-- A number ends before the end of its line. -/
theorem line_not_mem {key : Bytes} (n : UInt64) (h : byteOf '\n' ∉ key) :
    byteOf '\n' ∉ key ++ byteOf ' ' :: toDecimal n := by
  rw [List.mem_append, List.mem_cons]
  rintro (hkey | hblank | hnumber)
  · exact h hkey
  · exact absurd hblank (by decide)
  · exact (mem_toDecimal hnumber).2 rfl

/-- The fields of a pointer are read. -/
theorem parseFields_encode (pointer : CurrentPointer) {fuel : ℕ} (hfuel : 2 ≤ fuel) :
    parseFields fuel (bytesOf "snapshot" ++ byteOf ' ' :: toDecimal pointer.snapshot ++
      byteOf '\n' :: (bytesOf "wal" ++ byteOf ' ' :: toDecimal pointer.wal ++ [byteOf '\n'])) {} =
        .ok ⟨some pointer.snapshot, some pointer.wal⟩ := by
  obtain ⟨fuel, rfl⟩ := Nat.exists_eq_add_of_le' hfuel
  obtain ⟨hsnapshot, hsnapshot_value⟩ := lineKey_append (toDecimal pointer.snapshot)
    (show byteOf ' ' ∉ bytesOf "snapshot" by decide)
  obtain ⟨hwal, hwal_value⟩ := lineKey_append (toDecimal pointer.wal)
    (show byteOf ' ' ∉ bytesOf "wal" by decide)
  have hne : bytesOf "wal" ≠ bytesOf "snapshot" := by decide
  have hwal_line : parseLine (bytesOf "wal" ++ byteOf ' ' :: toDecimal pointer.wal ++
      byteOf '\n' :: []) = some (bytesOf "wal" ++ byteOf ' ' :: toDecimal pointer.wal, []) :=
    parseLine_append [] (line_not_mem _ (by decide))
  have hfields : parseFields (fuel + 1) (bytesOf "wal" ++ byteOf ' ' :: toDecimal pointer.wal ++
      [byteOf '\n']) ⟨some pointer.snapshot, none⟩ =
        .ok ⟨some pointer.snapshot, some pointer.wal⟩ := by
    rw [parseFields, hwal_line]
    · simp only [hwal, hwal_value, hne, if_false, if_true, parseU64_toDecimal, parseFields]
    · simp
  rw [parseFields, parseLine_append _ (line_not_mem _ (by decide))]
  · simp only [hsnapshot, hsnapshot_value, if_true, parseU64_toDecimal]
    exact hfields
  · simp

/-- The lines of a pointer. -/
theorem encodeCurrentFields_eq (pointer : CurrentPointer) :
    encodeCurrentFields pointer = kCurrentMagic ++ byteOf '\n' ::
      (bytesOf "snapshot" ++ byteOf ' ' :: toDecimal pointer.snapshot ++
        byteOf '\n' :: (bytesOf "wal" ++ byteOf ' ' :: toDecimal pointer.wal ++
          [byteOf '\n'])) := by
  have hsnapshot : bytesOf "\nsnapshot " = byteOf '\n' :: (bytesOf "snapshot" ++ [byteOf ' ']) := rfl
  have hwal : bytesOf "\nwal " = byteOf '\n' :: (bytesOf "wal" ++ [byteOf ' ']) := rfl
  have hend : bytesOf "\n" = [byteOf '\n'] := rfl
  rw [encodeCurrentFields, hsnapshot, hwal, hend]
  simp only [List.append_assoc, List.cons_append, List.nil_append]

/-- A decimal number of 64 bits has at most twenty digits. -/
theorem length_toDecimal_le (n : UInt64) : (toDecimal n).length ≤ 20 := by
  have hlt : n.toNat < 10 ^ 20 := lt_trans n.toNat_lt (by decide)
  rw [toDecimal, List.length_map]
  exact (Nat.length_toDigits_le_iff (by decide) (by decide)).mpr hlt

/-- The lines of a pointer take few bytes. -/
theorem length_encodeCurrentFields_le (pointer : CurrentPointer) :
    (encodeCurrentFields pointer).length ≤ 80 := by
  have hsnapshot := length_toDecimal_le pointer.snapshot
  have hwal := length_toDecimal_le pointer.wal
  simp only [encodeCurrentFields, List.length_append, show kCurrentMagic.length = 12 by decide,
    show (bytesOf "\nsnapshot ").length = 10 by decide,
    show (bytesOf "\nwal ").length = 5 by decide, show (bytesOf "\n").length = 1 by decide]
  omega

/-- The bytes of a pointer. -/
theorem length_encodeCurrent (pointer : CurrentPointer) :
    (encodeCurrent pointer).length = (encodeCurrentFields pointer).length + 13 := by
  simp only [encodeCurrent, List.length_append, length_hexDigits,
    show (bytesOf "\n").length = 1 by decide, show (bytesOf "crc ").length = 4 by decide]

/-- A pointer takes few bytes. -/
theorem length_encodeCurrent_le (pointer : CurrentPointer) :
    (encodeCurrent pointer).length ≤ 100 := by
  have hfields := length_encodeCurrentFields_le pointer
  rw [length_encodeCurrent]
  omega

/-- The line ends after the checksum are dropped. -/
theorem rdropWhile_hexDigits (n : ℕ) {ends : Bytes}
    (hends : ∀ c ∈ ends, c = byteOf '\n' ∨ c = byteOf '\r') :
    (hexDigits 8 n ++ ends).rdropWhile (fun c => c == byteOf '\n' || c == byteOf '\r') =
      hexDigits 8 n := by
  induction ends using List.reverseRecOn with
  | nil =>
    rw [List.append_nil, List.rdropWhile_eq_self_iff]
    intro hne
    obtain ⟨-, hn, hr⟩ := mem_hexDigits (List.getLast_mem hne)
    simp [hn, hr]
  | append_singleton ends c ih =>
    have hc : (c == byteOf '\n' || c == byteOf '\r') = true := by
      simpa using hends c (by simp)
    rw [← List.append_assoc, List.rdropWhile_concat, if_pos hc]
    exact ih fun d hd => hends d (by simp [hd])

/-- A pointer is read back whatever ends its last line, unless its log segment is zero. -/
theorem decodeCurrent_ends (pointer : CurrentPointer) {ends : Bytes} (hlength : ends.length ≤ 1)
    (hends : ∀ c ∈ ends, c = byteOf '\n' ∨ c = byteOf '\r') :
    decodeCurrent (encodeCurrentFields pointer ++ (bytesOf "crc " ++
        (hexDigits 8 (crc32c (encodeCurrentFields pointer)).toNat ++ ends))) =
      if pointer.wal = 0 then fail .corrupt "CURRENT pointer is incomplete" else .ok pointer := by
  have hfields := length_encodeCurrentFields_le pointer
  have hline : parseLine (encodeCurrentFields pointer) = some (kCurrentMagic, bytesOf "snapshot" ++
      byteOf ' ' :: toDecimal pointer.snapshot ++
        byteOf '\n' :: (bytesOf "wal" ++ byteOf ' ' :: toDecimal pointer.wal ++
          [byteOf '\n'])) := by
    rw [encodeCurrentFields_eq]
    exact parseLine_append _ (by decide)
  generalize encodeCurrentFields pointer = text at *
  generalize hcrc : (crc32c text).toNat = crc
  generalize hbytes : text ++ (bytesOf "crc " ++ (hexDigits 8 crc ++ ends)) = bytes
  have hmark : (bytesOf "crc ").length = 4 := by decide
  have hsize : (!(bytes == [] || bytes.length > 4096)) = true := by
    have htotal : bytes.length = text.length + (4 + (8 + ends.length)) := by
      rw [← hbytes, List.length_append, List.length_append, List.length_append, hmark,
        length_hexDigits]
    have hne : bytes ≠ [] := by
      rintro rfl
      rw [List.length_nil] at htotal
      omega
    simp only [Bool.not_eq_true', Bool.or_eq_false_iff, beq_eq_false_iff_ne, decide_eq_false_iff_not]
    exact ⟨hne, by omega⟩
  have hblank : byteOf ' ' ∉ hexDigits 8 crc ++ ends := by
    rw [List.mem_append]
    rintro (hdigit | hend)
    · exact (mem_hexDigits hdigit).1 rfl
    · exact absurd (hends _ hend) (by decide)
  have htake : bytes.take text.length = text := by rw [← hbytes, List.take_left]
  have hdrop : bytes.drop (text.length + 4) = hexDigits 8 crc ++ ends := by
    rw [← hbytes, ← List.append_assoc, List.drop_left' (by rw [List.length_append, hmark])]
  have hfind : rfind (bytesOf "crc ") bytes = some text.length := by
    rw [← hbytes, rfind_append hblank]
  unfold decodeCurrent
  rw [hsize]
  simp only [hfind, htake, hdrop, rdropWhile_hexDigits crc hends, hcrc, hline, beq_self_eq_true]
  rw [parseFields_encode pointer (by simp only [List.length_append, List.length_cons]; omega)]
  by_cases hwal : pointer.wal = 0
  · simp [require, hwal, bind, Except.bind, fail]
  · simp [require, hwal, bind, Except.bind, pure, Except.pure]

/-- A pointer is read back, unless its log segment is zero. -/
theorem decodeCurrent_encode (pointer : CurrentPointer) :
    decodeCurrent (encodeCurrent pointer) =
      if pointer.wal = 0 then fail .corrupt "CURRENT pointer is incomplete" else .ok pointer := by
  have hends : bytesOf "\n" = [byteOf '\n'] := rfl
  refine decodeCurrent_ends pointer (by decide) fun c hc => Or.inl ?_
  rw [hends] at hc
  exact List.mem_singleton.mp hc

end Fcfn
