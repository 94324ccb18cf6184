import Mathlib.Order.Defs.LinearOrder
import Mathlib.Data.List.Lex
import Mathlib.Data.Nat.ModEq
import Mathlib.Tactic.Ring

/-!
# Bytes and little-endian words

The order of byte strings is the lexicographic order of lists of bytes, which needs bytes to be
linearly ordered. `leBytes k n` is the `k`-byte little-endian form of `n` modulo `256^k` and
`ofLe` reads such a form back; the machine words of a format are instances at two, four and eight
bytes. -/

namespace Fcfn.Words

/-- Bytes are ordered by value. -/
instance byteOrder : LinearOrder UInt8 where
  le_refl := UInt8.le_refl
  le_trans _ _ _ := UInt8.le_trans
  le_antisymm _ _ := UInt8.le_antisymm
  le_total := UInt8.le_total
  lt_iff_le_not_ge a b := by
    rw [UInt8.lt_iff_toNat_lt, UInt8.le_iff_toNat_le, UInt8.le_iff_toNat_le]; omega
  toDecidableLE := inferInstance
  toDecidableLT := inferInstance

/-- A byte string. -/
abbrev Bytes := List UInt8

/-- The `k` low bytes of `n`, least significant first. -/
def leBytes : ℕ → ℕ → Bytes
  | 0, _ => []
  | k + 1, n => UInt8.ofNat n :: leBytes k (n / 256)

/-- The number whose little-endian bytes are given. -/
def ofLe : Bytes → ℕ
  | [] => 0
  | b :: bs => b.toNat + 256 * ofLe bs

@[simp] theorem length_leBytes (k n : ℕ) : (leBytes k n).length = k := by
  induction k generalizing n with
  | zero => rfl
  | succ k ih => simp [leBytes, ih]

/-- Reading the bytes of a number gives it back modulo the width. -/
theorem ofLe_leBytes (k n : ℕ) : ofLe (leBytes k n) = n % 256 ^ k := by
  induction k generalizing n with
  | zero => simp [leBytes, ofLe, Nat.mod_one]
  | succ k ih =>
    have hbyte : (UInt8.ofNat n).toNat = n % 256 := by simp
    rw [leBytes, ofLe, ih, hbyte, pow_succ', Nat.mod_mul]

/-- A byte string is the little-endian form of the number it names. -/
theorem leBytes_ofLe (bytes : Bytes) : leBytes bytes.length (ofLe bytes) = bytes := by
  induction bytes with
  | nil => rfl
  | cons b bytes ih =>
    have hlow : UInt8.ofNat (ofLe (b :: bytes)) = b := by
      apply UInt8.toNat_inj.mp
      have hb := b.toNat_lt
      rw [UInt8.toNat_ofNat', ofLe]
      omega
    have hhigh : ofLe (b :: bytes) / 256 = ofLe bytes := by
      have hb := b.toNat_lt
      rw [ofLe]
      omega
    rw [List.length_cons, leBytes, hlow, hhigh, ih]

/-- A byte string names a number within its width. -/
theorem ofLe_lt (bytes : Bytes) : ofLe bytes < 256 ^ bytes.length := by
  have h := ofLe_leBytes bytes.length (ofLe bytes)
  rw [leBytes_ofLe] at h
  rw [h]
  exact Nat.mod_lt _ (Nat.pow_pos (by omega))

/-- Little-endian bytes of a 16-bit word. -/
def le16 (v : UInt16) : Bytes := leBytes 2 v.toNat

/-- Little-endian bytes of a 32-bit word. -/
def le32 (v : UInt32) : Bytes := leBytes 4 v.toNat

/-- Little-endian bytes of a 64-bit word. -/
def le64 (v : UInt64) : Bytes := leBytes 8 v.toNat

theorem ofLe_le16 (v : UInt16) : UInt16.ofNat (ofLe (le16 v)) = v := by
  have hlt : v.toNat < 256 ^ 2 := v.toNat_lt
  rw [le16, ofLe_leBytes, Nat.mod_eq_of_lt hlt, UInt16.ofNat_toNat]

theorem ofLe_le32 (v : UInt32) : UInt32.ofNat (ofLe (le32 v)) = v := by
  have hlt : v.toNat < 256 ^ 4 := v.toNat_lt
  rw [le32, ofLe_leBytes, Nat.mod_eq_of_lt hlt, UInt32.ofNat_toNat]

theorem ofLe_le64 (v : UInt64) : UInt64.ofNat (ofLe (le64 v)) = v := by
  have hlt : v.toNat < 256 ^ 8 := v.toNat_lt
  rw [le64, ofLe_leBytes, Nat.mod_eq_of_lt hlt, UInt64.ofNat_toNat]

@[simp] theorem length_le16 (v : UInt16) : (le16 v).length = 2 := length_leBytes ..

@[simp] theorem length_le32 (v : UInt32) : (le32 v).length = 4 := length_leBytes ..

@[simp] theorem length_le64 (v : UInt64) : (le64 v).length = 8 := length_leBytes ..

end Fcfn.Words
