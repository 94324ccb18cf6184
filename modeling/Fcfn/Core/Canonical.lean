import Fcfn.Core.Ids
import Fcfn.Lib.Codec

/-!
# Canonical serialization

A method of the source's writer is the bytes it appends. The source's reader is sticky: after the
first failure it returns zeros, and every decoder returns the first failure's status once it looks.
A reader that stops at its first failure returns the same status, so the readers here live in
`Except`. Each `read…` is shown to undo its writer. -/

namespace Fcfn

open Words Codec

/-! ## The digest -/

def kFnvOffsetBasis64 : UInt64 := 0xcbf29ce484222325
def kFnvPrime64 : UInt64 := 0x100000001b3

/-- One byte of FNV-1a. -/
def fnvUpdate (state : UInt64) (byte : UInt8) : UInt64 :=
  (state ^^^ byte.toUInt64) * kFnvPrime64

/-- The digest of a byte string: two FNV-1a lanes with distinct bases. Proofs never look inside. -/
@[irreducible] def digestOf (bytes : Bytes) : Digest :=
  ⟨bytes.foldl (fun state b => fnvUpdate state (b ^^^ 0x5a)) (kFnvOffsetBasis64 * 3 + 1),
    bytes.foldl fnvUpdate kFnvOffsetBasis64⟩

/-! ## The writer -/

namespace Write

/-- One byte. -/
def u8 (v : UInt8) : Bytes := [v]

/-- Two bytes. -/
def u16 (v : UInt16) : Bytes := le16 v

/-- Four bytes. -/
def u32 (v : UInt32) : Bytes := le32 v

/-- Eight bytes. -/
def u64 (v : UInt64) : Bytes := le64 v

/-- One byte, 0 or 1. -/
def boolean (v : Bool) : Bytes := u8 (if v then 1 else 0)

/-- A size, cast to 32 bits. -/
def size (n : ℕ) : Bytes := u32 (UInt32.ofNat n)

/-- A length-prefixed byte string. -/
def blob (bytes : Bytes) : Bytes := size bytes.length ++ bytes

/-- A digest, high word first. -/
def digest (d : Digest) : Bytes := u64 d.hi ++ u64 d.lo

/-- A length-prefixed identity. -/
def resourceId (id : ResourceId) : Bytes := blob id

/-- A list of identities after its size. -/
def ids (list : List ResourceId) : Bytes := size list.length ++ list.flatMap resourceId

end Write

/-! ## The reader -/

/-- A canonical reader: its input is what remains. -/
abbrev Read (α : Type) := Reader Status α

namespace Read

/-- Fail with a status. -/
def poison {α : Type} (code : StatusCode) (message : String) : Read α :=
  throw ⟨code, message⟩

/-- Fail when a condition holds. -/
def refuse (condition : Prop) [Decidable condition] (code : StatusCode) (message : String) :
    Read Unit :=
  if condition then poison code message else pure ()

/-- Take `count` bytes. -/
def take (count : ℕ) : Read Bytes := fun input =>
  if input.length < count then fail .invalidArgument "canonical document truncated"
  else .ok (input.take count, input.drop count)

/-- One byte. -/
def u8 : Read UInt8 := do
  let bytes ← take 1
  return UInt8.ofNat (ofLe bytes)

/-- Two bytes. -/
def u16 : Read UInt16 := do
  let bytes ← take 2
  return UInt16.ofNat (ofLe bytes)

/-- Four bytes. -/
def u32 : Read UInt32 := do
  let bytes ← take 4
  return UInt32.ofNat (ofLe bytes)

/-- Eight bytes. -/
def u64 : Read UInt64 := do
  let bytes ← take 8
  return UInt64.ofNat (ofLe bytes)

/-- One byte, which must be 0 or 1. -/
def boolean : Read Bool := do
  let raw ← u8
  refuse (raw > 1) .invalidArgument "boolean byte out of domain"
  return raw == 1

/-- A length-prefixed byte string within a bound. -/
def blob (max_bytes : ℕ) : Read Bytes := do
  let length ← u32
  refuse (length.toNat > max_bytes) .limitExceeded "blob length exceeds bound"
  take length.toNat

/-- A length-prefixed text within a bound. -/
def text (max_bytes : ℕ) : Read Bytes := blob max_bytes

/-- A digest, high word first. -/
def digest : Read Digest := do
  let hi ← u64
  let lo ← u64
  return ⟨hi, lo⟩

/-- A length-prefixed identity in canonical form. -/
def resourceId : Read ResourceId := do
  let raw ← text kMaxResourceIdLength
  liftM (ResourceId.parse raw)

/-- A count of 32 bits within a bound. -/
def count (max_entries : ℕ) (message : String) : Read ℕ := do
  let n ← u32
  refuse (n.toNat > max_entries) .limitExceeded message
  return n.toNat

/-- Run a reader on a whole document: nothing may remain. -/
def document {α : Type} (r : Read α) (bytes : Bytes) : Result α :=
  runAll ⟨.trailingGarbage, "bytes remain after canonical document"⟩ r bytes

end Read

/-! ## The reader undoes the writer -/

/-- Taking as many bytes as a string has takes the string. -/
theorem reads_take {bytes : Bytes} {n : ℕ} (h : bytes.length = n) :
    Reads (Read.take n) bytes bytes := by
  intro rest
  simp only [Read.take, StateT.run, List.length_append]
  rw [if_neg (by omega), List.take_left' h, List.drop_left' h]

/-- A check that does not fire reads nothing. -/
theorem reads_refuse {condition : Prop} [Decidable condition] {code : StatusCode}
    {message : String} (h : ¬ condition) : Reads (Read.refuse condition code message) [] () := by
  rw [Read.refuse, if_neg h]
  exact Reads.pure ()

theorem reads_u8 (v : UInt8) : Reads Read.u8 (Write.u8 v) v := by
  refine (reads_take (show [v].length = 1 from rfl)).bind_pure ?_
  have hv : UInt8.ofNat (ofLe [v]) = v := by simp [ofLe]
  rw [hv]
  exact Reads.pure v

theorem reads_u16 (v : UInt16) : Reads Read.u16 (Write.u16 v) v :=
  (reads_take (length_le16 v)).bind_pure (by rw [ofLe_le16]; exact Reads.pure v)

theorem reads_u32 (v : UInt32) : Reads Read.u32 (Write.u32 v) v :=
  (reads_take (length_le32 v)).bind_pure (by rw [ofLe_le32]; exact Reads.pure v)

theorem reads_u64 (v : UInt64) : Reads Read.u64 (Write.u64 v) v :=
  (reads_take (length_le64 v)).bind_pure (by rw [ofLe_le64]; exact Reads.pure v)

theorem reads_boolean (v : Bool) : Reads Read.boolean (Write.boolean v) v := by
  refine (reads_u8 _).bind_pure (Reads.skip (reads_refuse (by cases v <;> decide)) ?_)
  cases v <;> exact Reads.pure _

/-- A size below `2^32` survives the cast. -/
theorem toNat_size {n : ℕ} (h : n < 2 ^ 32) : (UInt32.ofNat n).toNat = n := by
  rw [UInt32.toNat_ofNat']; exact Nat.mod_eq_of_lt h

theorem reads_blob {bytes : Bytes} {bound : ℕ} (h : bytes.length ≤ bound) (hb : bound < 2 ^ 32) :
    Reads (Read.blob bound) (Write.blob bytes) bytes := by
  have hsize : (UInt32.ofNat bytes.length).toNat = bytes.length := toNat_size (by omega)
  refine (reads_u32 _).bind (Reads.skip (reads_refuse (by rw [hsize]; omega)) ?_)
  rw [hsize]
  exact reads_take rfl

theorem reads_digest (d : Digest) : Reads Read.digest (Write.digest d) d :=
  (reads_u64 _).bind ((reads_u64 _).bind_pure (Reads.pure _))

/-- An identity is read back when it is in canonical form. -/
theorem reads_resourceId {id : ResourceId} (h : isValidResourceId id = true) :
    Reads Read.resourceId (Write.resourceId id) id := by
  refine (reads_blob (length_of_isValidResourceId h).2 (by decide)).bind_pure ?_
  intro rest
  simp only [ResourceId.parse, h]
  rfl

theorem reads_count {n bound : ℕ} {message : String} (h : n ≤ bound) (hb : bound < 2 ^ 32) :
    Reads (Read.count bound message) (Write.size n) n := by
  have hsize : (UInt32.ofNat n).toNat = n := toNat_size (by omega)
  refine (reads_u32 _).bind_pure (Reads.skip (reads_refuse (by rw [hsize]; omega)) ?_)
  rw [hsize]
  exact Reads.pure _

/-- Lifting an outcome into the reader reads nothing. -/
theorem reads_liftM {α : Type} {r : Result α} {a : α} (h : r = .ok a) :
    Reads (liftM r : Read α) [] a := by
  subst h
  intro rest
  rfl

/-! ## What the reader returns -/

/-- A check that passes. -/
theorem returns_refuse {condition : Prop} [Decidable condition] {code : StatusCode}
    {message : String} : Returns (Read.refuse condition code message) fun _ => ¬ condition := by
  rw [Read.refuse]
  split
  · exact Returns.throw
  · rename_i h
    exact Returns.pure h

/-- A lifted outcome. -/
theorem returns_liftM {α : Type} {r : Result α} : Returns (liftM r : Read α) fun a => r = .ok a := by
  intro input a rest hrun
  cases r with
  | error e => exact absurd hrun (by simp [liftM, monadLift, MonadLift.monadLift, StateT.run,
      StateT.lift, bind, Except.bind])
  | ok b =>
    obtain ⟨rfl, -⟩ := Prod.mk.inj (Except.ok.inj hrun)
    rfl

/-- Identities are read in canonical form. -/
theorem returns_resourceId : Returns Read.resourceId fun id => isValidResourceId id = true := by
  refine Returns.after fun raw input id rest hrun => ?_
  have h := returns_liftM input id rest hrun
  rw [ResourceId.parse] at h
  split at h
  · exact absurd h (by simp [fail])
  · rename_i hvalid
    obtain rfl := Except.ok.inj h
    simpa using hvalid

/-- Counts are read within their bound. -/
theorem returns_count {bound : ℕ} {message : String} :
    Returns (Read.count bound message) fun n => n ≤ bound :=
  Returns.after fun _ => returns_refuse.bind fun _ h => Returns.pure (not_lt.mp h)

/-- Byte strings are read within their bound. -/
theorem returns_blob {bound : ℕ} : Returns (Read.blob bound) fun bytes => bytes.length ≤ bound := by
  refine Returns.after fun n => returns_refuse.bind fun _ h => ?_
  intro input bytes rest hrun
  simp only [StateT.run, Read.take] at hrun
  split at hrun
  · exact absurd hrun (by simp [fail])
  · obtain ⟨rfl, -⟩ := Prod.mk.inj (Except.ok.inj hrun)
    rw [List.length_take]
    exact (min_le_left _ _).trans (not_lt.mp h)

/-! ## What the reader recovers -/

/-- A check that lets the reader go on reads nothing. -/
theorem recovers_refuse {condition : Prop} [Decidable condition] {code : StatusCode}
    {message : String} : Recovers (Read.refuse condition code message) [] () := by
  by_cases h : condition
  · intro _ rest b rest' hrun
    rw [Read.refuse, if_pos h] at hrun
    exact absurd hrun (by simp [Read.poison, throw, throwThe, MonadExceptOf.throw, StateT.run,
      StateT.lift, bind, Except.bind])
  · exact (reads_refuse h).recovers

/-- A lifted outcome reads nothing. -/
theorem recovers_liftM {α : Type} {r : Result α} {a : α} (h : ∀ b, r = .ok b → b = a) :
    Recovers (liftM r : Read α) [] a := by
  cases r with
  | error e =>
    intro _ rest b rest' hrun
    exact absurd hrun (by simp [liftM, monadLift, MonadLift.monadLift, StateT.run, StateT.lift,
      bind, Except.bind])
  | ok b =>
    obtain rfl := h b rfl
    exact (reads_liftM rfl).recovers

/-- A byte string whose length fits its size is recovered, whatever the reader's bound. -/
theorem recovers_blob {bytes : Bytes} {bound : ℕ} :
    Recovers (Read.blob bound) (Write.blob bytes) bytes := by
  refine Recovers.of_length fun hlen => ?_
  have hsize : (UInt32.ofNat bytes.length).toNat = bytes.length := by
    refine toNat_size ?_
    rw [Write.blob, List.length_append] at hlen
    omega
  refine (reads_u32 _).recovers.bind (Recovers.skip recovers_refuse ?_)
  rw [hsize]
  exact (reads_take rfl).recovers

/-- An identity is recovered. -/
theorem recovers_resourceId (id : ResourceId) :
    Recovers Read.resourceId (Write.resourceId id) id := by
  refine recovers_blob.bind_pure (recovers_liftM fun parsed h => ?_)
  rw [ResourceId.parse] at h
  split at h
  · exact absurd h (by simp [fail])
  · exact (Except.ok.inj h).symm

/-- A count that fits its size is recovered, whatever the reader's bound. -/
theorem recovers_count {n bound : ℕ} {message : String} (h : n < 2 ^ 32) :
    Recovers (Read.count bound message) (Write.size n) n := by
  refine (reads_u32 _).recovers.bind_pure (Recovers.skip recovers_refuse ?_)
  rw [toNat_size h]
  exact Recovers.pure _

/-- As many items as forms of at least one byte make up a string. -/
theorem length_le_flatMap {α : Type} {write : α → Bytes} (as : List α)
    (h : ∀ a ∈ as, write a ≠ []) : as.length ≤ (as.flatMap write).length := by
  induction as with
  | nil => simp
  | cons a as ih =>
    have hpos := List.length_pos_iff.mpr (h a (by simp))
    have hrest := ih fun b hb => h b (by simp [hb])
    rw [List.flatMap_cons, List.length_append, List.length_cons]
    omega

/-- A counted list is recovered when its items are. -/
theorem recovers_counted {α : Type} {item : Read α} {write : α → Bytes} {as : List α} {bound : ℕ}
    {message : String} (h : ∀ a ∈ as, Recovers item (write a) a) (hne : ∀ a ∈ as, write a ≠ []) :
    Recovers (do let n ← Read.count bound message; many item n)
      (Write.size as.length ++ as.flatMap write) as := by
  refine Recovers.of_length fun hlen => ?_
  have hle := length_le_flatMap as hne
  rw [List.length_append] at hlen
  exact (recovers_count (by omega)).bind (Recovers.many as h)

/-- A length-prefixed form is not empty. -/
theorem blob_ne_nil (bytes : Bytes) : Write.blob bytes ≠ [] := by
  refine List.length_pos_iff.mp ?_
  rw [Write.blob, List.length_append, Write.size, Write.u32, length_le32]
  omega

/-! ## What the reader consumes -/

theorem consumes_take {n : ℕ} : Consumes (Read.take n) fun bs a => bs = a ∧ a.length = n := by
  intro input a rest hrun
  by_cases hlen : input.length < n
  · have hfail := (if_pos hlen).symm.trans hrun
    exact nomatch hfail
  · obtain ⟨rfl, rfl⟩ := Prod.mk.inj (Except.ok.inj ((if_neg hlen).symm.trans hrun))
    exact ⟨input.take n, (List.take_append_drop n input).symm, rfl,
      List.length_take_of_le (not_lt.mp hlen)⟩

/-- A check that lets the reader go on takes nothing. -/
theorem consumes_refuse {condition : Prop} [Decidable condition] {code : StatusCode}
    {message : String} :
    Consumes (Read.refuse condition code message) fun bs _ => bs = [] ∧ ¬ condition := by
  rw [Read.refuse]
  split
  · exact Consumes.throw
  · rename_i h
    exact Consumes.pure ⟨rfl, h⟩

/-- A lifted outcome takes nothing. -/
theorem consumes_liftM {α : Type} {r : Result α} :
    Consumes (liftM r : Read α) fun bs a => bs = [] ∧ r = .ok a := by
  intro input a rest hrun
  cases r with
  | error e => exact absurd hrun (by simp [liftM, monadLift, MonadLift.monadLift, StateT.run,
      StateT.lift, bind, Except.bind])
  | ok b =>
    obtain ⟨rfl, rfl⟩ := Prod.mk.inj (Except.ok.inj hrun)
    exact ⟨[], rfl, rfl, rfl⟩

theorem consumes_u8 : Consumes Read.u8 fun bs v => bs = Write.u8 v := by
  refine Consumes.bind consumes_take fun bs a hbs => Consumes.pure ?_
  obtain ⟨rfl, hlen⟩ := hbs
  obtain ⟨b, rfl⟩ := List.length_eq_one_iff.mp hlen
  simp [ofLe, Write.u8]

theorem consumes_u16 : Consumes Read.u16 fun bs v => bs = Write.u16 v := by
  refine Consumes.bind consumes_take fun bs a hbs => Consumes.pure ?_
  obtain ⟨rfl, hlen⟩ := hbs
  have hle := leBytes_ofLe bs
  have hlt := ofLe_lt bs
  rw [hlen] at hle hlt
  rw [List.append_nil, Write.u16, le16, UInt16.toNat_ofNat_of_lt' hlt, hle]

theorem consumes_u32 : Consumes Read.u32 fun bs v => bs = Write.u32 v := by
  refine Consumes.bind consumes_take fun bs a hbs => Consumes.pure ?_
  obtain ⟨rfl, hlen⟩ := hbs
  have hle := leBytes_ofLe bs
  have hlt := ofLe_lt bs
  rw [hlen] at hle hlt
  rw [List.append_nil, Write.u32, le32, UInt32.toNat_ofNat_of_lt' hlt, hle]

theorem consumes_u64 : Consumes Read.u64 fun bs v => bs = Write.u64 v := by
  refine Consumes.bind consumes_take fun bs a hbs => Consumes.pure ?_
  obtain ⟨rfl, hlen⟩ := hbs
  have hle := leBytes_ofLe bs
  have hlt := ofLe_lt bs
  rw [hlen] at hle hlt
  rw [List.append_nil, Write.u64, le64, UInt64.toNat_ofNat_of_lt' hlt, hle]

theorem consumes_boolean : Consumes Read.boolean fun bs v => bs = Write.boolean v := by
  refine Consumes.field consumes_u8 fun raw => Consumes.skip consumes_refuse fun _ hraw =>
    Consumes.pure ?_
  have hcases : raw = 0 ∨ raw = 1 := by
    have hle : raw.toNat ≤ 1 := not_lt.mp hraw
    rcases Nat.le_one_iff_eq_zero_or_eq_one.mp hle with h | h
    · exact Or.inl (UInt8.toNat_inj.mp h)
    · exact Or.inr (UInt8.toNat_inj.mp h)
  rcases hcases with rfl | rfl <;> rfl

/-- A size that has been read is written as it was. -/
theorem size_toNat (n : UInt32) : Write.size n.toNat = Write.u32 n := by
  rw [Write.size, UInt32.ofNat_toNat]

theorem consumes_blob {bound : ℕ} :
    Consumes (Read.blob bound) fun bs a => bs = Write.blob a ∧ a.length ≤ bound := by
  refine Consumes.field consumes_u32 fun n => Consumes.skip consumes_refuse fun _ hn => ?_
  refine Consumes.mono consumes_take fun bs a hbs => ?_
  obtain ⟨rfl, hlen⟩ := hbs
  rw [Write.blob, hlen, size_toNat]
  exact ⟨rfl, not_lt.mp hn⟩

theorem consumes_digest : Consumes Read.digest fun bs d => bs = Write.digest d :=
  Consumes.field consumes_u64 fun _ => Consumes.field consumes_u64 fun _ => Consumes.pure (by
    rw [Write.digest, List.append_nil])

theorem consumes_resourceId : Consumes Read.resourceId fun bs id => bs = Write.resourceId id := by
  refine Consumes.bind consumes_blob fun bs raw hbs =>
    Consumes.mono consumes_liftM fun bs' id hid => ?_
  obtain ⟨rfl, hparse⟩ := hid
  rw [ResourceId.parse] at hparse
  split at hparse
  · exact absurd hparse (by simp [fail])
  · obtain rfl := Except.ok.inj hparse
    rw [List.append_nil, hbs.1, Write.resourceId]

theorem consumes_count {bound : ℕ} {message : String} :
    Consumes (Read.count bound message) fun bs n => bs = Write.size n := by
  refine Consumes.field consumes_u32 fun n => Consumes.skip consumes_refuse fun _ _ =>
    Consumes.pure ?_
  rw [List.append_nil, size_toNat]

end Fcfn
