import Fcfn.Store.Record
import Mathlib.Data.LawfulXor.Basic
import Mathlib.Data.Fintype.EquivFin

/-!
# What the checksum detects

One step of the checksum is injective in the register and in the byte, since the entries of the
table differ in their high bytes. So no two byte strings that differ in one byte have the same
checksum (`crc32c_set_ne`), whatever their length; and four more bytes lead to any checksum
(`exists_completion`), so that a payload which lacks as many may still be that of any record. -/

namespace Fcfn

open Words

/-! ## Folds of injective steps -/

section Folds

variable {σ α : Type*} {step : σ → α → σ}

/-- A fold of steps that are injective in the state is injective in the state. -/
theorem foldl_left_injective (hstate : ∀ a s t, step s a = step t a → s = t) {items : List α} {s t : σ}
    (h : items.foldl step s = items.foldl step t) : s = t := by
  induction items generalizing s t with
  | nil => exact h
  | cons a items ih => exact hstate a s t (ih h)

/-- A fold of steps that are injective in both arguments tells a list from one that differs in one
place. -/
theorem foldl_set_ne (hstate : ∀ a s t, step s a = step t a → s = t)
    (hitem : ∀ s a b, step s a = step s b → a = b) {items : List α} {i : ℕ} {a b : α} (s : σ)
    (hi : items[i]? = some a) (hne : a ≠ b) :
    (items.set i b).foldl step s ≠ items.foldl step s := by
  induction items generalizing i s with
  | nil => exact absurd hi (by simp)
  | cons first items ih =>
    cases i with
    | zero =>
      intro heq
      obtain rfl := Option.some.inj hi
      exact hne (hitem s first b (foldl_left_injective hstate heq).symm)
    | succ i => exact ih (step s first) hi

end Folds

/-! ## The table -/

/-- Whether no number of a list is met twice, with a bit for each number that was met. -/
def distinctFrom : ℕ → List ℕ → Bool
  | _, [] => true
  | met, n :: rest => !met.testBit n && distinctFrom (met ||| 2 ^ n) rest

/-- Numbers of which none is met twice are distinct. -/
theorem nodup_of_distinctFrom {met : ℕ} {numbers : List ℕ} (h : distinctFrom met numbers = true) :
    numbers.Nodup ∧ ∀ n ∈ numbers, met.testBit n = false := by
  induction numbers generalizing met with
  | nil => simp
  | cons n rest ih =>
    simp only [distinctFrom, Bool.and_eq_true, Bool.not_eq_true'] at h
    obtain ⟨hnew, hrest⟩ := h
    obtain ⟨hnodup, hunmet⟩ := ih hrest
    have hkept : ∀ k ∈ rest, met.testBit k = false ∧ k ≠ n := by
      intro k hk
      have hbits := hunmet k hk
      rw [Nat.testBit_or, Bool.or_eq_false_iff, Nat.testBit_two_pow] at hbits
      exact ⟨hbits.1, fun heq => by simp [heq] at hbits⟩
    refine ⟨List.nodup_cons.mpr ⟨fun hmem => (hkept n hmem).2 rfl, hnodup⟩, fun k hk => ?_⟩
    rcases List.mem_cons.mp hk with rfl | hk
    · exact hnew
    · exact (hkept k hk).1

/-- The high bytes of the entries of the table. -/
def highBytes : List ℕ :=
  (List.range 256).map fun n => (crc32cEntry (UInt8.ofNat n)).toNat / 2 ^ 24

/-- The entries of the table differ in their high bytes. -/
theorem highBytes_nodup : highBytes.Nodup :=
  -- one bit for each entry is faster to evaluate than the comparison of every two
  (nodup_of_distinctFrom (show distinctFrom 0 highBytes = true by decide +kernel)).1

/-- An entry is found by its high byte. -/
theorem crc32cEntry_injective {m n : UInt8}
    (h : (crc32cEntry m).toNat / 2 ^ 24 = (crc32cEntry n).toNat / 2 ^ 24) : m = n := by
  have hlength : highBytes.length = 256 := by simp [highBytes]
  have hentry : ∀ n : UInt8, ∃ hn : n.toNat < highBytes.length,
      highBytes[n.toNat] = (crc32cEntry n).toNat / 2 ^ 24 := by
    intro n
    have hn := n.toNat_lt
    refine ⟨by omega, ?_⟩
    simp only [highBytes, List.getElem_map, List.getElem_range, UInt8.ofNat_toNat]
  obtain ⟨hm, hm'⟩ := hentry m
  obtain ⟨hn, hn'⟩ := hentry n
  have hsame : highBytes[m.toNat] = highBytes[n.toNat] := by rw [hm', hn', h]
  exact UInt8.toNat_inj.mp ((List.getElem_inj highBytes_nodup).mp hsame)

/-! ## One step -/

/-- The index of a step into the table. -/
def crc32cIndex (crc : UInt32) (byte : UInt8) : UInt8 := ((crc ^^^ byte.toUInt32) &&& 0xff).toUInt8

/-- The low byte of the register selects the entry together with the byte. -/
theorem toNat_crc32cIndex (crc : UInt32) (byte : UInt8) :
    (crc32cIndex crc byte).toNat = crc.toNat % 2 ^ 8 ^^^ byte.toNat := by
  have hmask : (0xff : UInt32).toNat = 2 ^ 8 - 1 := rfl
  rw [crc32cIndex, UInt32.toNat_toUInt8, UInt32.toNat_and, UInt32.toNat_xor, UInt8.toNat_toUInt32,
    hmask, Nat.and_two_pow_sub_one_eq_mod, Nat.mod_mod, Nat.xor_mod_two_pow,
    Nat.mod_eq_of_lt byte.toNat_lt]

/-- A step shifts the register and adds the entry. -/
theorem toNat_crc32cUpdate (crc : UInt32) (byte : UInt8) :
    (crc32cUpdate crc byte).toNat =
      crc.toNat / 2 ^ 8 ^^^ (crc32cEntry (crc32cIndex crc byte)).toNat := by
  have hshift : (8 : UInt32).toNat % 32 = 8 := rfl
  rw [crc32cUpdate, UInt32.toNat_xor, UInt32.toNat_shiftRight, hshift, Nat.shiftRight_eq_div_pow]
  rfl

/-- The high byte of a step is that of the entry. -/
theorem high_crc32cUpdate (crc : UInt32) (byte : UInt8) :
    (crc32cUpdate crc byte).toNat / 2 ^ 24 =
      (crc32cEntry (crc32cIndex crc byte)).toNat / 2 ^ 24 := by
  have hlt := crc.toNat_lt
  have hzero : crc.toNat / 2 ^ 8 / 2 ^ 24 = 0 := by omega
  rw [toNat_crc32cUpdate, ← Nat.shiftRight_eq_div_pow _ 24, Nat.shiftRight_xor_distrib,
    Nat.shiftRight_eq_div_pow, Nat.shiftRight_eq_div_pow, hzero, Nat.zero_xor]

/-- Steps that agree have used the same entry, on registers that agree above the low byte. -/
theorem crc32cIndex_of_update {crc crc' : UInt32} {byte byte' : UInt8}
    (h : crc32cUpdate crc byte = crc32cUpdate crc' byte') :
    crc.toNat / 2 ^ 8 = crc'.toNat / 2 ^ 8 ∧
      crc.toNat % 2 ^ 8 ^^^ byte.toNat = crc'.toNat % 2 ^ 8 ^^^ byte'.toNat := by
  have hindex : crc32cIndex crc byte = crc32cIndex crc' byte' := by
    apply crc32cEntry_injective
    rw [← high_crc32cUpdate, ← high_crc32cUpdate, h]
  constructor
  · have hnat := congrArg UInt32.toNat h
    rw [toNat_crc32cUpdate, toNat_crc32cUpdate, hindex] at hnat
    exact (xor_left_involutive _).injective hnat
  · rw [← toNat_crc32cIndex, ← toNat_crc32cIndex, hindex]

/-- A step is injective in the register. -/
theorem crc32cUpdate_left_injective (byte : UInt8) (crc crc' : UInt32)
    (h : crc32cUpdate crc byte = crc32cUpdate crc' byte) : crc = crc' := by
  obtain ⟨hhigh, hlow⟩ := crc32cIndex_of_update h
  have hlow := (xor_left_involutive _).injective hlow
  apply UInt32.toNat_inj.mp
  omega

/-- A step is injective in the byte. -/
theorem crc32cUpdate_right_injective (crc : UInt32) (byte byte' : UInt8)
    (h : crc32cUpdate crc byte = crc32cUpdate crc byte') : byte = byte' := by
  obtain ⟨-, hlow⟩ := crc32cIndex_of_update h
  exact UInt8.toNat_inj.mp ((xor_right_involutive _).injective hlow)

/-- The checksum detects a change of one byte. -/
theorem crc32c_set_ne {bytes : Bytes} {i : ℕ} {a b : UInt8} (hi : bytes[i]? = some a)
    (hne : a ≠ b) : crc32c (bytes.set i b) ≠ crc32c bytes := by
  unfold crc32c
  intro h
  have hfold : (bytes.set i b).foldl crc32cUpdate 0xffffffff =
      bytes.foldl crc32cUpdate 0xffffffff := (xor_left_involutive _).injective h
  exact foldl_set_ne crc32cUpdate_left_injective crc32cUpdate_right_injective _ hi hne hfold

/-! ## Any checksum can be reached -/

/-- Registers that agree in their `k` high bytes. -/
def AgreeHigh (k : ℕ) (crc crc' : UInt32) : Prop :=
  crc.toNat / 2 ^ (32 - 8 * k) = crc'.toNat / 2 ^ (32 - 8 * k)

/-- Registers that agree in one more high byte after a step have agreed in the others, and used the
same entry. -/
theorem AgreeHigh.of_update {k : ℕ} (hk : k < 4) {crc crc' : UInt32} {byte byte' : UInt8}
    (h : AgreeHigh (k + 1) (crc32cUpdate crc byte) (crc32cUpdate crc' byte')) :
    AgreeHigh k crc crc' ∧
      crc.toNat % 2 ^ 8 ^^^ byte.toNat = crc'.toNat % 2 ^ 8 ^^^ byte'.toNat := by
  have hexponent : 32 - 8 * (k + 1) = 24 - 8 * k := by omega
  rw [AgreeHigh, hexponent] at h
  have hindex : crc32cIndex crc byte = crc32cIndex crc' byte' := by
    apply crc32cEntry_injective
    have hhigh := congrArg (· / 2 ^ (8 * k)) h
    have hsum : 24 - 8 * k + 8 * k = 24 := by omega
    simp only [Nat.div_div_eq_div_mul, ← pow_add, hsum] at hhigh
    rw [← high_crc32cUpdate, ← high_crc32cUpdate, hhigh]
  refine ⟨?_, ?_⟩
  · rw [toNat_crc32cUpdate, toNat_crc32cUpdate, hindex, ← Nat.shiftRight_eq_div_pow _ (24 - 8 * k),
      ← Nat.shiftRight_eq_div_pow _ (24 - 8 * k), Nat.shiftRight_xor_distrib,
      Nat.shiftRight_xor_distrib] at h
    have hshift := (xor_left_involutive _).injective h
    simp only [Nat.shiftRight_eq_div_pow, Nat.div_div_eq_div_mul, ← pow_add] at hshift
    have hsum : 8 + (24 - 8 * k) = 32 - 8 * k := by omega
    rwa [hsum] at hshift
  · rw [← toNat_crc32cIndex, ← toNat_crc32cIndex, hindex]

/-- Registers that agree in a high byte for every step were the same up to the bytes, and when they
started the same they have taken the same bytes. -/
theorem agreeHigh_foldl {bytes bytes' : Bytes} (hlength : bytes.length = bytes'.length) {k : ℕ}
    (hk : k + bytes.length ≤ 4) {crc crc' : UInt32}
    (h : AgreeHigh (k + bytes.length) (bytes.foldl crc32cUpdate crc)
      (bytes'.foldl crc32cUpdate crc')) :
    AgreeHigh k crc crc' ∧ (crc = crc' → bytes = bytes') := by
  induction bytes generalizing bytes' k crc crc' with
  | nil =>
    obtain rfl := List.eq_nil_of_length_eq_zero hlength.symm
    exact ⟨h, fun _ => rfl⟩
  | cons byte bytes ih =>
    cases bytes' with
    | nil => exact absurd hlength (by simp)
    | cons byte' bytes' =>
      rw [List.length_cons] at hk h
      rw [List.length_cons, List.length_cons, Nat.add_right_cancel_iff] at hlength
      have hcount : k + 1 + bytes.length = k + (bytes.length + 1) := by omega
      obtain ⟨hnext, hsame⟩ := ih hlength (k := k + 1) (by omega) (by rw [hcount]; exact h)
      obtain ⟨hagree, hindex⟩ := hnext.of_update (by omega)
      refine ⟨hagree, ?_⟩
      rintro rfl
      obtain rfl := UInt8.toNat_inj.mp ((xor_right_involutive _).injective hindex)
      rw [hsame rfl]

/-- Four bytes lead from one register to any other. -/
theorem exists_four_bytes (crc target : UInt32) :
    ∃ bytes : Bytes, bytes.length = 4 ∧ bytes.foldl crc32cUpdate crc = target := by
  -- the bytes are those of a word, and different words lead to different registers
  let lead : Fin (2 ^ 32) → Fin (2 ^ 32) := fun n =>
    ⟨((leBytes 4 n).foldl crc32cUpdate crc).toNat, UInt32.toNat_lt _⟩
  have hinjective : Function.Injective lead := by
    intro m n hmn
    have hregister : AgreeHigh (0 + (leBytes 4 m).length) ((leBytes 4 m).foldl crc32cUpdate crc)
        ((leBytes 4 n).foldl crc32cUpdate crc) := by
      rw [AgreeHigh, length_leBytes]
      simpa [lead] using congrArg Fin.val hmn
    have hbytes := (agreeHigh_foldl (by simp) (by simp) hregister).2 rfl
    have hword := congrArg ofLe hbytes
    have hwidth : 256 ^ 4 = 2 ^ 32 := by decide
    rw [ofLe_leBytes, ofLe_leBytes, hwidth, Nat.mod_eq_of_lt m.isLt, Nat.mod_eq_of_lt n.isLt] at hword
    exact Fin.ext hword
  obtain ⟨n, hn⟩ := (Finite.injective_iff_surjective.mp hinjective) ⟨target.toNat, target.toNat_lt⟩
  exact ⟨leBytes 4 n, length_leBytes _ _, UInt32.toNat_inj.mp (congrArg Fin.val hn)⟩

/-- Bytes that lack four others at least can be completed to any checksum. -/
theorem exists_completion (bytes : Bytes) {missing : ℕ} (h : 4 ≤ missing) (crc : UInt32) :
    ∃ more : Bytes, more.length = missing ∧ crc32c (bytes ++ more) = crc := by
  obtain ⟨last, hlast, hfold⟩ := exists_four_bytes
    ((bytes ++ List.replicate (missing - 4) 0).foldl crc32cUpdate 0xffffffff) (crc ^^^ 0xffffffff)
  refine ⟨List.replicate (missing - 4) 0 ++ last, ?_, ?_⟩
  · rw [List.length_append, List.length_replicate, hlast]
    omega
  · unfold crc32c
    rw [← List.append_assoc, List.foldl_append, hfold]
    exact xor_left_involutive _ _

end Fcfn
