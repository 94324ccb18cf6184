import Fcfn.Core.Canonical
import Fcfn.Store.Durable

/-!
# Record framing

A record is a header of fixed size and a payload, each under a CRC-32C. The decoder of a log tells
three things apart at the front of its input: nothing, a strict prefix of a record, and bytes that
are no record. `decodeRecord_encode` and `decodeRecord_torn` say that what was written is found
again, whole or cut off anywhere. -/

namespace Fcfn

open Words

/-! ## The checksum -/

def kCrc32cPolynomial : UInt32 := 0x82f63b78

/-- One bit of an entry of the table. -/
def crc32cBit (crc : UInt32) : UInt32 :=
  if crc &&& 1 ≠ 0 then (crc >>> 1) ^^^ kCrc32cPolynomial else crc >>> 1

/-- An entry of the table. -/
def crc32cEntry (index : UInt8) : UInt32 := crc32cBit^[8] index.toUInt32

/-- One byte of the checksum. -/
def crc32cUpdate (crc : UInt32) (byte : UInt8) : UInt32 :=
  (crc >>> 8) ^^^ crc32cEntry ((crc ^^^ byte.toUInt32) &&& 0xff).toUInt8

/-- The CRC-32C of a byte string. Proofs never look inside. -/
@[irreducible] def crc32c (bytes : Bytes) : UInt32 :=
  bytes.foldl crc32cUpdate 0xffffffff ^^^ 0xffffffff

/-! ## Fields at an offset -/

/-- The 16-bit word at an offset. -/
def getU16 (bytes : Bytes) (offset : ℕ) : UInt16 := UInt16.ofNat (ofLe ((bytes.drop offset).take 2))

/-- The 32-bit word at an offset. -/
def getU32 (bytes : Bytes) (offset : ℕ) : UInt32 := UInt32.ofNat (ofLe ((bytes.drop offset).take 4))

/-- The 64-bit word at an offset. -/
def getU64 (bytes : Bytes) (offset : ℕ) : UInt64 := UInt64.ofNat (ofLe ((bytes.drop offset).take 8))

/-- A field after others. -/
theorem take_drop_append {before field : Bytes} (rest : Bytes) {offset width : ℕ}
    (hoffset : before.length = offset) (hwidth : field.length = width) :
    ((before ++ (field ++ rest)).drop offset).take width = field := by
  rw [List.drop_left' hoffset, List.take_left' hwidth]

theorem getU16_append (offset : ℕ) (before : Bytes) (v : UInt16) (rest : Bytes)
    (h : before.length = offset) : getU16 (before ++ (le16 v ++ rest)) offset = v := by
  rw [getU16, take_drop_append rest h (length_le16 v), ofLe_le16]

theorem getU32_append (offset : ℕ) (before : Bytes) (v : UInt32) (rest : Bytes)
    (h : before.length = offset) : getU32 (before ++ (le32 v ++ rest)) offset = v := by
  rw [getU32, take_drop_append rest h (length_le32 v), ofLe_le32]

theorem getU64_append (offset : ℕ) (before : Bytes) (v : UInt64) (rest : Bytes)
    (h : before.length = offset) : getU64 (before ++ (le64 v ++ rest)) offset = v := by
  rw [getU64, take_drop_append rest h (length_le64 v), ofLe_le64]

/-! ## Records -/

def kRecordMagic : UInt32 := 0x4e464346
def kRecordFormatVersion : UInt16 := 1

/-- The record kinds in the order of their numbers, which start at one. -/
def recordTypes : List RecordType :=
  [.topologyDefinition, .policyDefinition, .detectionRecord, .evidenceReconfirmed, .planDecision,
    .boundaryDecision, .transitionDecision, .applyAttempt, .applyAcknowledgement,
    .effectVerification, .authorizationIssued, .fence, .epochAdvance, .snapshotPayload,
    .startupMarker, .shutdownMarker]

/-- The number of a record kind. -/
def RecordType.toWord (type : RecordType) : UInt16 := UInt16.ofNat (recordTypes.idxOf type + 1)

/-- The record kind of a number. -/
def RecordType.ofWord (word : UInt16) : Option RecordType :=
  if word = 0 then none else recordTypes[word.toNat - 1]?

/-- A record kind is found under its number. -/
theorem RecordType.ofWord_toWord (type : RecordType) : ofWord type.toWord = some type := by
  cases type <;> decide

/-- What a header says. -/
structure RecordHeader where
  magic : UInt32
  version : UInt16
  type : UInt16
  payload_length : UInt32
  sequence : UInt64
  payload_crc : UInt32
  header_crc : UInt32

/-- The part of a header that its checksum covers. -/
def encodeHeaderFields (type : RecordType) (sequence : Sequence) (payload : Bytes) : Bytes :=
  le32 kRecordMagic ++ (le16 kRecordFormatVersion ++ (le16 type.toWord ++
    (le32 (UInt32.ofNat payload.length) ++ (le64 sequence ++ le32 (crc32c payload)))))

/-- The header of a record. -/
def encodeHeader (type : RecordType) (sequence : Sequence) (payload : Bytes) : Bytes :=
  encodeHeaderFields type sequence payload ++
    le32 (crc32c (encodeHeaderFields type sequence payload))

/-- The bytes of a record. -/
def encodeRecord (type : RecordType) (sequence : Sequence) (payload : Bytes) : Bytes :=
  encodeHeader type sequence payload ++ payload

/-- The header at the front of at least as many bytes as one takes. -/
def decodeHeader (bytes : Bytes) : RecordHeader where
  magic := getU32 bytes 0
  version := getU16 bytes 4
  type := getU16 bytes 6
  payload_length := getU32 bytes 8
  sequence := getU64 bytes 12
  payload_crc := getU32 bytes 20
  header_crc := getU32 bytes 24

/-- Why bytes are no record. -/
inductive FrameStatus
  | corrupt | unsupportedVersion | invalidType | oversized
  deriving DecidableEq, Repr

/-- What is at the front of some bytes. -/
inductive DecodeOutcome
  | ok (frame : Frame) (consumed : ℕ)
  | noMoreData
  /-- A strict prefix of a record at the end of the input. -/
  | tornTail (detail : String)
  | refused (status : FrameStatus) (detail : String)
  deriving DecidableEq, Repr

/-- Decode the record at the front of some bytes. -/
def decodeRecord (bytes : Bytes) : DecodeOutcome :=
  if bytes = [] then .noMoreData
  else if bytes.length < kRecordHeaderBytes then .tornTail "fewer bytes than a record header"
  else
    let header := decodeHeader bytes
    if header.magic ≠ kRecordMagic then .refused .corrupt "record magic mismatch"
    else if header.version ≠ kRecordFormatVersion then
      .refused .unsupportedVersion "record format version is not supported"
    else
      match RecordType.ofWord header.type with
      | none => .refused .invalidType "record type outside the defined domain"
      | some type =>
        if header.payload_length.toNat > kMaxRecordPayloadBytes then
          .refused .oversized "declared payload length exceeds the record bound"
        else if crc32c (bytes.take 24) ≠ header.header_crc then
          .refused .corrupt "record header integrity check failed"
        else
          let total := kRecordHeaderBytes + header.payload_length.toNat
          if bytes.length < total then .tornTail "declared payload is incomplete"
          else
            let payload := (bytes.drop kRecordHeaderBytes).take header.payload_length.toNat
            if crc32c payload ≠ header.payload_crc then
              .refused .corrupt "record payload integrity check failed"
            else .ok ⟨type, header.sequence, payload⟩ total

/-- The bytes of a frame. -/
def Frame.encode (frame : Frame) : Bytes := encodeRecord frame.type frame.sequence frame.payload

/-! ## What was written is found again -/

@[simp] theorem length_encodeHeaderFields (type : RecordType) (sequence : Sequence)
    (payload : Bytes) : (encodeHeaderFields type sequence payload).length = 24 := by
  simp [encodeHeaderFields]

@[simp] theorem length_encodeHeader (type : RecordType) (sequence : Sequence) (payload : Bytes) :
    (encodeHeader type sequence payload).length = kRecordHeaderBytes := by
  simp [encodeHeader, kRecordHeaderBytes]

/-- A frame takes as many bytes as its size says. -/
@[simp] theorem length_encode (frame : Frame) : frame.encode.length = frame.size := by
  simp [Frame.encode, encodeRecord, Frame.size]

/-- The fields of a header, whatever follows it. -/
theorem decodeHeader_encode (type : RecordType) (sequence : Sequence) (payload rest : Bytes) :
    decodeHeader (encodeHeader type sequence payload ++ rest) =
      ⟨kRecordMagic, kRecordFormatVersion, type.toWord, UInt32.ofNat payload.length, sequence,
        crc32c payload, crc32c (encodeHeaderFields type sequence payload)⟩ := by
  generalize hcrc : crc32c (encodeHeaderFields type sequence payload) = header_crc
  have hfields : encodeHeader type sequence payload ++ rest =
      le32 kRecordMagic ++ (le16 kRecordFormatVersion ++ (le16 type.toWord ++
        (le32 (UInt32.ofNat payload.length) ++ (le64 sequence ++ (le32 (crc32c payload) ++
          (le32 header_crc ++ rest)))))) := by
    rw [encodeHeader, hcrc]
    simp only [encodeHeaderFields, List.append_assoc]
  have hmagic := getU32_append 0 [] kRecordMagic (le16 kRecordFormatVersion ++
    (le16 type.toWord ++ (le32 (UInt32.ofNat payload.length) ++ (le64 sequence ++
      (le32 (crc32c payload) ++ (le32 header_crc ++ rest)))))) rfl
  have hversion := getU16_append 4 (le32 kRecordMagic) kRecordFormatVersion (le16 type.toWord ++
    (le32 (UInt32.ofNat payload.length) ++ (le64 sequence ++ (le32 (crc32c payload) ++
      (le32 header_crc ++ rest))))) (by simp)
  have htype := getU16_append 6 (le32 kRecordMagic ++ le16 kRecordFormatVersion) type.toWord
    (le32 (UInt32.ofNat payload.length) ++ (le64 sequence ++ (le32 (crc32c payload) ++
      (le32 header_crc ++ rest)))) (by simp)
  have hlength := getU32_append 8 (le32 kRecordMagic ++ (le16 kRecordFormatVersion ++
    le16 type.toWord)) (UInt32.ofNat payload.length) (le64 sequence ++ (le32 (crc32c payload) ++
      (le32 header_crc ++ rest))) (by simp)
  have hsequence := getU64_append 12 (le32 kRecordMagic ++ (le16 kRecordFormatVersion ++
    (le16 type.toWord ++ le32 (UInt32.ofNat payload.length)))) sequence
      (le32 (crc32c payload) ++ (le32 header_crc ++ rest)) (by simp)
  have hpayload := getU32_append 20 (le32 kRecordMagic ++ (le16 kRecordFormatVersion ++
    (le16 type.toWord ++ (le32 (UInt32.ofNat payload.length) ++ le64 sequence)))) (crc32c payload)
      (le32 header_crc ++ rest) (by simp)
  have hheader := getU32_append 24 (le32 kRecordMagic ++ (le16 kRecordFormatVersion ++
    (le16 type.toWord ++ (le32 (UInt32.ofNat payload.length) ++ (le64 sequence ++
      le32 (crc32c payload)))))) header_crc rest (by simp)
  simp only [List.append_assoc, List.nil_append] at hmagic htype hlength hsequence hpayload hheader
  rw [hfields, decodeHeader, hmagic, hversion, htype, hlength, hsequence, hpayload, hheader]

/-- What is at the front of bytes that start with a header, once its checks have passed. -/
theorem decodeRecord_header {type : RecordType} {sequence : Sequence} {payload rest : Bytes}
    (hlen : payload.length < 2 ^ 32) :
    decodeRecord (encodeHeader type sequence payload ++ rest) =
      if payload.length > kMaxRecordPayloadBytes then
        .refused .oversized "declared payload length exceeds the record bound"
      else if rest.length < payload.length then .tornTail "declared payload is incomplete"
      else if crc32c (rest.take payload.length) ≠ crc32c payload then
        .refused .corrupt "record payload integrity check failed"
      else .ok ⟨type, sequence, rest.take payload.length⟩ (kRecordHeaderBytes + payload.length) := by
  have hheader := length_encodeHeader type sequence payload
  have hne : encodeHeader type sequence payload ++ rest ≠ [] := by
    intro h
    have hzero := congrArg List.length h
    rw [List.length_append, hheader] at hzero
    simp [kRecordHeaderBytes] at hzero
  have hlength : ¬ (encodeHeader type sequence payload ++ rest).length < kRecordHeaderBytes := by
    rw [List.length_append, hheader]
    omega
  have hcovered : (encodeHeader type sequence payload ++ rest).take 24 =
      encodeHeaderFields type sequence payload := by
    rw [encodeHeader, List.append_assoc, List.take_left' (length_encodeHeaderFields ..)]
  have hsize : (UInt32.ofNat payload.length).toNat = payload.length := toNat_size hlen
  have hdrop : (encodeHeader type sequence payload ++ rest).drop kRecordHeaderBytes = rest :=
    List.drop_left' hheader
  unfold decodeRecord
  rw [if_neg hne, if_neg hlength]
  simp only [decodeHeader_encode, RecordType.ofWord_toWord, hcovered, hsize, hdrop,
    List.length_append, hheader, ne_eq, not_true_eq_false, if_false, Nat.add_lt_add_iff_left]

/-- A record is found at the front of what starts with it. -/
theorem decodeRecord_encode {frame : Frame} (h : frame.payload.length ≤ kMaxRecordPayloadBytes)
    (rest : Bytes) : decodeRecord (frame.encode ++ rest) = .ok frame frame.size := by
  have hlen : frame.payload.length < 2 ^ 32 := lt_of_le_of_lt h (by decide)
  rw [Frame.encode, encodeRecord, List.append_assoc, decodeRecord_header hlen, if_neg (by omega),
    if_neg (by simp), List.take_left, if_neg (by simp)]
  rfl

/-- A record whose payload is too long is refused. -/
theorem decodeRecord_oversized {frame : Frame} (h : kMaxRecordPayloadBytes < frame.payload.length)
    (hlen : frame.payload.length < 2 ^ 32) (rest : Bytes) :
    decodeRecord (frame.encode ++ rest) =
      .refused .oversized "declared payload length exceeds the record bound" := by
  rw [Frame.encode, encodeRecord, List.append_assoc, decodeRecord_header hlen, if_pos h]

/-- Part of a record: some of its bytes, and not all. -/
def Torn (bytes : Bytes) : Prop :=
  ∃ frame : Frame, frame.payload.length ≤ kMaxRecordPayloadBytes ∧
    ∃ written, written < frame.size ∧ bytes = frame.encode.take written

/-- No bytes are a part of any record. -/
theorem torn_nil : Torn [] :=
  ⟨⟨.startupMarker, 0, []⟩, by simp, 0, by simp [Frame.size, kRecordHeaderBytes], by simp⟩

/-- Part of a record is told from a record. -/
theorem decodeRecord_torn {bytes : Bytes} (h : Torn bytes) (hne : bytes ≠ []) :
    ∃ detail, decodeRecord bytes = .tornTail detail := by
  obtain ⟨frame, hmax, written, hwritten, rfl⟩ := h
  by_cases hheader : written < kRecordHeaderBytes
  · have hlength : (frame.encode.take written).length < kRecordHeaderBytes :=
      lt_of_le_of_lt (List.length_take_le _ _) hheader
    refine ⟨"fewer bytes than a record header", ?_⟩
    unfold decodeRecord
    rw [if_neg hne, if_pos hlength]
  · have hpart : frame.encode.take written =
        encodeHeader frame.type frame.sequence frame.payload ++
          frame.payload.take (written - kRecordHeaderBytes) := by
      rw [Frame.encode, encodeRecord, List.take_append, length_encodeHeader,
        List.take_of_length_le (by rw [length_encodeHeader]; omega)]
    have hshort : (frame.payload.take (written - kRecordHeaderBytes)).length <
        frame.payload.length := by
      rw [Frame.size] at hwritten
      rw [List.length_take]
      omega
    have hlen : frame.payload.length < 2 ^ 32 := lt_of_le_of_lt hmax (by decide)
    refine ⟨"declared payload is incomplete", ?_⟩
    rw [hpart, decodeRecord_header hlen, if_neg (by omega), if_pos hshort]

end Fcfn
