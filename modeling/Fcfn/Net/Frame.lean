import Fcfn.Lib.Stream
import Fcfn.Store.Record

/-!
# Wire frames

A frame is a header of 44 bytes and a payload, each under a CRC-32C. The decoder looks at the front
of the bytes received so far; it is incremental (`decodeFrame_incremental`), so a byte string has
one list of frames whatever the pieces it arrives in (`framesOf`). The payloads of the protocol are
canonical documents. -/

namespace Fcfn.Net

open Words Codec Streams

def kMaxFramePayloadBytes : ℕ := 4 * 1024 * 1024
def kMaxSessionTokenLength : ℕ := 64
def kMaxSessionLabelLength : ℕ := 64
def kMaxDiagnosticTextLength : ℕ := 512
def kMaxStatusMessageLength : ℕ := 192

def kWireMagic : UInt32 := 0x4e434646
def kWireVersion : UInt16 := 1
def kWireHeaderBytes : ℕ := 44

/-- A frame may carry at most one maximum-size payload. -/
def kMaxBufferedBytes : ℕ := kMaxFramePayloadBytes + kWireHeaderBytes

/-! ## Enumerations -/

inductive MessageType
  | hello | helloAck | request | response | goodbye
  deriving DecidableEq, Repr

/-- The message types in the order of their numbers, which start at one. -/
def messageTypes : List MessageType := [.hello, .helloAck, .request, .response, .goodbye]

/-- The number of a message type. -/
def MessageType.toWord (type : MessageType) : UInt16 := UInt16.ofNat (messageTypes.idxOf type + 1)

/-- The message type of a number. -/
def MessageType.ofWord (word : UInt16) : Option MessageType :=
  if word = 0 then none else messageTypes[word.toNat - 1]?

/-- A message type is found under its number. -/
@[simp] theorem MessageType.ofWord_toWord (type : MessageType) : ofWord type.toWord = some type := by
  cases type <;> decide

/-- The operations a session may request. -/
inductive Operation
  | describe | applyTopology | applyPolicy | recordDetection | authorize | plan | transition
  | submitApply | acknowledge | verifyEffect | currentBoundary | planByGeneration | attempts
  | evidence | checkpoint | shutdown
  deriving DecidableEq, Repr

/-- The operations in the order of their numbers, which start at one. -/
def operations : List Operation :=
  [.describe, .applyTopology, .applyPolicy, .recordDetection, .authorize, .plan, .transition,
    .submitApply, .acknowledge, .verifyEffect, .currentBoundary, .planByGeneration, .attempts,
    .evidence, .checkpoint, .shutdown]

/-- The number of an operation. -/
def Operation.toWord (operation : Operation) : UInt16 :=
  UInt16.ofNat (operations.idxOf operation + 1)

/-- The operation of a number. -/
def Operation.ofWord (word : UInt16) : Option Operation :=
  if word = 0 then none else operations[word.toNat - 1]?

/-- An operation is found under its number. -/
@[simp] theorem Operation.ofWord_toWord (operation : Operation) :
    ofWord operation.toWord = some operation := by
  cases operation <;> decide

/-- Whether an operation changes durable state. -/
def Operation.isMutating : Operation → Bool
  | .describe | .currentBoundary | .planByGeneration | .attempts | .evidence => false
  | _ => true

/-- How decoding a frame can fail. -/
inductive FrameStatus
  | corrupt | unsupportedVersion | invalidType | oversized
  deriving DecidableEq, Repr

/-- The text of a failure on the wire. -/
def FrameStatus.token : FrameStatus → String
  | .corrupt => "corrupt"
  | .unsupportedVersion => "unsupported_version"
  | .invalidType => "invalid_type"
  | .oversized => "oversized"

/-! ## Frames -/

structure Frame where
  type : MessageType := .request
  session : SessionId := 0
  sequence : Sequence := 0
  epoch : CoordinatorEpoch := 0
  payload : Bytes := []
  deriving DecidableEq, Repr

/-- The bytes a frame takes up. -/
def Frame.size (frame : Frame) : ℕ := kWireHeaderBytes + frame.payload.length

/-- A failure to decode, with its detail text. -/
structure Refusal where
  status : FrameStatus
  detail : String
  deriving DecidableEq, Repr

/-- What is at the front of some bytes. -/
abbrev DecodeOutcome := Found Refusal Frame

/-- The part of a header that its checksum covers. -/
def encodeHeaderFields (frame : Frame) : Bytes :=
  le32 kWireMagic ++ (le16 kWireVersion ++ (le16 frame.type.toWord ++
    (le32 (UInt32.ofNat frame.payload.length) ++ (le64 frame.session ++ (le64 frame.sequence ++
      (le64 frame.epoch ++ le32 (crc32c frame.payload)))))))

/-- The bytes of a frame. -/
def encodeFrame (frame : Frame) : Bytes :=
  encodeHeaderFields frame ++ (le32 (crc32c (encodeHeaderFields frame)) ++ frame.payload)

/-- Decode the frame at the front of some bytes. -/
def decodeFrame (bytes : Bytes) : DecodeOutcome :=
  if bytes.length < kWireHeaderBytes then .needMore
  else if getU32 bytes 0 ≠ kWireMagic then .refused ⟨.corrupt, "wire magic mismatch"⟩
  else if getU16 bytes 4 ≠ kWireVersion then
    .refused ⟨.unsupportedVersion, "wire format version is not supported"⟩
  else
    match MessageType.ofWord (getU16 bytes 6) with
    | none => .refused ⟨.invalidType, "message type outside the defined domain"⟩
    | some type =>
      let payload_length := (getU32 bytes 8).toNat
      if payload_length > kMaxFramePayloadBytes then
        .refused ⟨.oversized, "declared payload length exceeds the wire bound"⟩
      else if crc32c (bytes.take 40) ≠ getU32 bytes 40 then
        .refused ⟨.corrupt, "frame header integrity check failed"⟩
      else if bytes.length < kWireHeaderBytes + payload_length then .needMore
      else
        let payload := (bytes.drop kWireHeaderBytes).take payload_length
        if crc32c payload ≠ getU32 bytes 36 then
          .refused ⟨.corrupt, "frame payload integrity check failed"⟩
        else .complete ⟨type, getU64 bytes 12, getU64 bytes 20, getU64 bytes 28, payload⟩

/-! ## The decoder is incremental -/

/-- A field inside the bytes received so far is not changed by what follows. -/
theorem take_drop_append_left {bytes : Bytes} {offset width : ℕ} (h : offset + width ≤ bytes.length)
    (more : Bytes) :
    ((bytes ++ more).drop offset).take width = (bytes.drop offset).take width := by
  rw [List.drop_append_of_le_length (by omega),
    List.take_append_of_le_length (by rw [List.length_drop]; omega)]

/-- The words of a header that was received whole. -/
theorem header_append {bytes : Bytes} (h : kWireHeaderBytes ≤ bytes.length) (more : Bytes) :
    getU32 (bytes ++ more) 0 = getU32 bytes 0 ∧ getU16 (bytes ++ more) 4 = getU16 bytes 4 ∧
    getU16 (bytes ++ more) 6 = getU16 bytes 6 ∧ getU32 (bytes ++ more) 8 = getU32 bytes 8 ∧
    getU64 (bytes ++ more) 12 = getU64 bytes 12 ∧ getU64 (bytes ++ more) 20 = getU64 bytes 20 ∧
    getU64 (bytes ++ more) 28 = getU64 bytes 28 ∧ getU32 (bytes ++ more) 36 = getU32 bytes 36 ∧
    getU32 (bytes ++ more) 40 = getU32 bytes 40 ∧ (bytes ++ more).take 40 = bytes.take 40 := by
  have hlen : 44 ≤ bytes.length := h
  unfold getU16 getU32 getU64
  refine ⟨?_, ?_, ?_, ?_, ?_, ?_, ?_, ?_, ?_, List.take_append_of_le_length (by omega)⟩ <;>
    rw [take_drop_append_left (by omega)]

/-- What a frame's decoding requires of its bytes. -/
theorem decodeFrame_complete {bytes : Bytes} {frame : Frame}
    (h : decodeFrame bytes = .complete frame) :
    kWireHeaderBytes ≤ bytes.length ∧ frame.payload.length = (getU32 bytes 8).toNat ∧
      frame.size ≤ bytes.length ∧ frame.payload.length ≤ kMaxFramePayloadBytes := by
  unfold decodeFrame at h
  split at h
  · exact absurd h (by simp)
  rename_i hheader
  split at h
  · exact absurd h (by simp)
  split at h
  · exact absurd h (by simp)
  split at h
  · exact absurd h (by simp)
  dsimp only at h
  split at h
  · exact absurd h (by simp)
  rename_i hbound
  split at h
  · exact absurd h (by simp)
  split at h
  · exact absurd h (by simp)
  rename_i hwhole
  split at h
  · exact absurd h (by simp)
  obtain rfl := Found.complete.inj h
  have hlen : ((bytes.drop kWireHeaderBytes).take (getU32 bytes 8).toNat).length =
      (getU32 bytes 8).toNat := by
    rw [List.length_take, List.length_drop]
    omega
  refine ⟨by omega, hlen, ?_, hlen.trans_le (by omega)⟩
  unfold Frame.size
  rw [hlen]
  omega

/-- Once decoding has decided, more bytes change nothing. -/
theorem decodeFrame_append {bytes : Bytes} (h : decodeFrame bytes ≠ .needMore) (more : Bytes) :
    decodeFrame (bytes ++ more) = decodeFrame bytes := by
  by_cases hheader : bytes.length < kWireHeaderBytes
  · exact absurd (by unfold decodeFrame; rw [if_pos hheader]) h
  obtain ⟨hmagic, hversion, htype, hlength, hsession, hsequence, hepoch, hpayload, hcrc, hcovered⟩ :=
    header_append (not_lt.mp hheader) more
  have hheader' : ¬ (bytes ++ more).length < kWireHeaderBytes := by
    rw [List.length_append]
    omega
  unfold decodeFrame at h ⊢
  rw [if_neg hheader] at h ⊢
  rw [if_neg hheader', hmagic, hversion, htype, hlength, hsession, hsequence, hepoch, hpayload, hcrc,
    hcovered]
  split
  · rfl
  rename_i hm
  split
  · rfl
  rename_i hv
  cases htypes : MessageType.ofWord (getU16 bytes 6) with
  | none => rfl
  | some type =>
    rw [if_neg hm, if_neg hv, htypes] at h
    simp only at h ⊢
    split
    · rfl
    rename_i hbound
    split
    · rfl
    rename_i hintact
    rw [if_neg hbound, if_neg hintact] at h
    -- The payload is there, or the decoder would ask for more.
    have hwhole : ¬ bytes.length < kWireHeaderBytes + (getU32 bytes 8).toNat := by
      intro hpart
      rw [if_pos hpart] at h
      exact h rfl
    have hwhole' : ¬ (bytes ++ more).length < kWireHeaderBytes + (getU32 bytes 8).toNat := by
      rw [List.length_append]
      omega
    rw [if_neg hwhole, if_neg hwhole', take_drop_append_left (by omega)]

/-- Frames are decoded from the front of a stream. -/
theorem decodeFrame_incremental : Incremental decodeFrame Frame.size where
  size_pos frame := by
    unfold Frame.size kWireHeaderBytes
    omega
  size_le h := (decodeFrame_complete h).2.2.1
  complete h more := by rw [decodeFrame_append (by simp [h]), h]
  refused h more := by rw [decodeFrame_append (by simp [h]), h]

/-- The intact frames at the front of a byte string, up to the first place where there is none. -/
def framesOf (bytes : Bytes) : List Frame := items decodeFrame Frame.size bytes

/-! ## What was written is found again -/

@[simp] theorem length_encodeHeaderFields (frame : Frame) :
    (encodeHeaderFields frame).length = 40 := by
  simp [encodeHeaderFields]

/-- The fields of a header, whatever follows it. -/
theorem header_encode (frame : Frame) (rest : Bytes) :
    getU32 (encodeHeaderFields frame ++ rest) 0 = kWireMagic ∧
    getU16 (encodeHeaderFields frame ++ rest) 4 = kWireVersion ∧
    getU16 (encodeHeaderFields frame ++ rest) 6 = frame.type.toWord ∧
    getU32 (encodeHeaderFields frame ++ rest) 8 = UInt32.ofNat frame.payload.length ∧
    getU64 (encodeHeaderFields frame ++ rest) 12 = frame.session ∧
    getU64 (encodeHeaderFields frame ++ rest) 20 = frame.sequence ∧
    getU64 (encodeHeaderFields frame ++ rest) 28 = frame.epoch ∧
    getU32 (encodeHeaderFields frame ++ rest) 36 = crc32c frame.payload := by
  unfold getU16 getU32 getU64 encodeHeaderFields
  simp [List.drop_append, List.drop_eq_nil_of_le, ofLe_le16, ofLe_le32, ofLe_le64]

/-- A frame takes as many bytes as its size says. -/
@[simp] theorem length_encodeFrame (frame : Frame) : (encodeFrame frame).length = frame.size := by
  simp only [encodeFrame, List.length_append, length_encodeHeaderFields, length_le32, Frame.size,
    kWireHeaderBytes]
  omega

/-- What is at the front of bytes that start with the header of a frame, once its checks have
passed. -/
theorem decodeFrame_body (frame : Frame) (body : Bytes) :
    decodeFrame (encodeHeaderFields frame ++ (le32 (crc32c (encodeHeaderFields frame)) ++ body)) =
      if frame.payload.length % 2 ^ 32 > kMaxFramePayloadBytes then
        .refused ⟨.oversized, "declared payload length exceeds the wire bound"⟩
      else if body.length < frame.payload.length % 2 ^ 32 then .needMore
      else if crc32c (body.take (frame.payload.length % 2 ^ 32)) ≠ crc32c frame.payload then
        .refused ⟨.corrupt, "frame payload integrity check failed"⟩
      else .complete { frame with payload := body.take (frame.payload.length % 2 ^ 32) } := by
  have hfields := length_encodeHeaderFields frame
  obtain ⟨hmagic, hversion, htype, hlength, hsession, hsequence, hepoch, hpayload⟩ :=
    header_encode frame (le32 (crc32c (encodeHeaderFields frame)) ++ body)
  have hcrc := getU32_append 40 (encodeHeaderFields frame) (crc32c (encodeHeaderFields frame)) body
    hfields
  have hsize : (UInt32.ofNat frame.payload.length).toNat = frame.payload.length % 2 ^ 32 :=
    UInt32.toNat_ofNat'
  have htotal : (encodeHeaderFields frame ++
      (le32 (crc32c (encodeHeaderFields frame)) ++ body)).length = kWireHeaderBytes + body.length := by
    simp only [List.length_append, hfields, length_le32, kWireHeaderBytes]
    omega
  have hcovered : (encodeHeaderFields frame ++ (le32 (crc32c (encodeHeaderFields frame)) ++
      body)).take 40 = encodeHeaderFields frame := List.take_left' hfields
  have hbody : (encodeHeaderFields frame ++ (le32 (crc32c (encodeHeaderFields frame)) ++
      body)).drop kWireHeaderBytes = body := by
    rw [← List.append_assoc, List.drop_left' (by simp [kWireHeaderBytes])]
  unfold decodeFrame
  rw [if_neg (by rw [htotal]; omega)]
  simp only [hmagic, hversion, htype, hlength, hsession, hsequence, hepoch, hpayload, hcrc, hcovered,
    hsize, hbody, htotal, MessageType.ofWord_toWord, ne_eq, not_true_eq_false, if_false,
    Nat.add_lt_add_iff_left]

/-- What is at the front of bytes that start with a frame, once the checks of its header have
passed. -/
theorem decodeFrame_header {frame : Frame} (hlen : frame.payload.length < 2 ^ 32) (rest : Bytes) :
    decodeFrame (encodeFrame frame ++ rest) =
      if frame.payload.length > kMaxFramePayloadBytes then
        .refused ⟨.oversized, "declared payload length exceeds the wire bound"⟩
      else .complete frame := by
  have hbytes : encodeFrame frame ++ rest = encodeHeaderFields frame ++
      (le32 (crc32c (encodeHeaderFields frame)) ++ (frame.payload ++ rest)) := by
    simp only [encodeFrame, List.append_assoc]
  rw [hbytes, decodeFrame_body, Nat.mod_eq_of_lt hlen, List.take_left,
    if_neg (show ¬ (frame.payload ++ rest).length < frame.payload.length by
      rw [List.length_append]; omega), if_neg (not_not.mpr rfl)]

/-- A frame is found at the front of what starts with it. -/
theorem decodeFrame_encode {frame : Frame} (h : frame.payload.length ≤ kMaxFramePayloadBytes)
    (rest : Bytes) : decodeFrame (encodeFrame frame ++ rest) = .complete frame := by
  rw [decodeFrame_header (lt_of_le_of_lt h (by decide)) rest, if_neg (by omega)]

/-- The frames of a stream that starts with a frame. -/
theorem framesOf_encode {frame : Frame} (h : frame.payload.length ≤ kMaxFramePayloadBytes)
    (rest : Bytes) : framesOf (encodeFrame frame ++ rest) = frame :: framesOf rest := by
  unfold framesOf
  rw [items_of_complete decodeFrame_incremental (decodeFrame_encode h rest),
    List.drop_left' (length_encodeFrame frame)]

end Fcfn.Net
