import Fcfn.Core.Status
import Fcfn.Lib.Words

/-!
# Identities

The numeric identities are 64-bit words. A resource identity is a byte string: the source can hold
one that is not in canonical form (`ResourceId::unchecked`), and only `ResourceId.parse` and the
checks that call `isValidResourceId` ask for the form. -/

namespace Fcfn

open Words (Bytes)

abbrev TopologyGeneration := UInt64
abbrev PolicyGeneration := UInt64
abbrev EvidenceGeneration := UInt64
abbrev BoundaryGeneration := UInt64
abbrev PlanGeneration := UInt64
abbrev CoordinatorEpoch := UInt64
abbrev BootId := UInt64
abbrev Sequence := UInt64
abbrev SessionId := UInt64
abbrev AttemptSequence := UInt64
abbrev TransitionGeneration := UInt64
abbrev SnapshotSequence := UInt64
abbrev ApplierEpoch := UInt64
abbrev EvidenceRevision := UInt64
abbrev AuthorizationId := UInt64

/-- The longest resource identity. -/
def kMaxResourceIdLength : ℕ := 63

/-- The byte of an ASCII character. -/
def byteOf (c : Char) : UInt8 := c.toNat.toUInt8

/-- The bytes of an ASCII text. -/
def bytesOf (s : String) : Bytes := s.toList.map byteOf

/-- The characters a resource identity may hold. -/
def isAllowedChar (c : UInt8) : Bool :=
  (byteOf 'a' ≤ c && c ≤ byteOf 'z') || (byteOf 'A' ≤ c && c ≤ byteOf 'Z') ||
    (byteOf '0' ≤ c && c ≤ byteOf '9') || c == byteOf '.' || c == byteOf '_' ||
    c == byteOf ':' || c == byteOf '-'

/-- The scan of `isValidResourceId`: allowed characters and no two dots in a row. -/
def isAllowedText : Bytes → Bool
  | [] => true
  | c :: rest =>
    isAllowedChar c && !(c == byteOf '.' && rest.head? == some (byteOf '.')) && isAllowedText rest

/-- The canonical form of a resource identity: 1 to 63 allowed characters, no two dots in a row,
no leading or trailing dot or dash. -/
def isValidResourceId (text : Bytes) : Bool :=
  text != [] && text.length ≤ kMaxResourceIdLength &&
    !(text.head? == some (byteOf '.') || text.head? == some (byteOf '-') ||
      text.getLast? == some (byteOf '.') || text.getLast? == some (byteOf '-')) &&
    isAllowedText text

/-- The identity of a resource. -/
abbrev ResourceId := Bytes

/-- Accept a text in canonical form as a resource identity. -/
def ResourceId.parse (text : Bytes) : Result ResourceId :=
  if !isValidResourceId text then
    fail .invalidArgument "resource id is not in canonical form"
  else .ok text

/-- Integrity digest, 128 bits. -/
structure Digest where
  hi : UInt64
  lo : UInt64
  deriving DecidableEq, Repr

/-- The zero digest. -/
def Digest.zero : Digest := ⟨0, 0⟩

/-- Whether the digest is zero. -/
def Digest.isZero (d : Digest) : Bool := d.hi == 0 && d.lo == 0

/-- A process incarnation. -/
structure BootIdentity where
  id : BootId
  process_id : UInt32
  deriving DecidableEq, Repr

/-- A canonical identity is not empty and not longer than the bound. -/
theorem length_of_isValidResourceId {text : Bytes} (h : isValidResourceId text = true) :
    text ≠ [] ∧ text.length ≤ kMaxResourceIdLength := by
  simp only [isValidResourceId, Bool.and_eq_true, bne_iff_ne, decide_eq_true_eq] at h
  exact h.1.1

end Fcfn
