import Fcfn.Store.Checksum
import Fcfn.Store.TornTail

/-!
# What a torn tail may be

The decoder of a log takes any bytes that are shorter than a header for a torn record, and any header
whose payload is not all there. Only a strict prefix of a record is one: the short bytes must agree with
a header as far as they go (`torn_iff_short`), and a payload that lacks fewer than four bytes must still
be able to reach its checksum (`torn_iff_long`). `only_prefixes_repaired` says that these are the only
two ways in which the decoder calls too much torn. -/

namespace Fcfn

open Words Files Program DurableStore

/-! ## Prefixes of a record -/

/-- A prefix of two parts is a prefix of the first that goes on with one of the second. -/
theorem prefix_append_iff {bytes first rest : Bytes} :
    bytes <+: first ++ rest ↔
      bytes.take first.length <+: first ∧ bytes.drop first.length <+: rest := by
  constructor
  · rintro ⟨more, hmore⟩
    have hwhole : (bytes ++ more).take first.length = first := by rw [hmore, List.take_left]
    have hrest : (bytes ++ more).drop first.length = rest := by rw [hmore, List.drop_left]
    rw [List.take_append] at hwhole
    rw [List.drop_append] at hrest
    exact ⟨⟨_, hwhole⟩, ⟨_, hrest⟩⟩
  · rintro ⟨htake, hdrop⟩
    rcases Nat.lt_or_ge bytes.length first.length with hshort | hlong
    · rw [List.take_of_length_le hshort.le] at htake
      exact htake.trans (List.prefix_append _ _)
    · have hfirst : bytes.take first.length = first :=
        htake.eq_of_length (by rw [List.length_take]; omega)
      rw [← List.take_append_drop first.length bytes, hfirst]
      exact (List.prefix_append_right_inj first).mpr hdrop

/-- Some bytes are the first of those of the number they name. -/
theorem prefix_leBytes (k : ℕ) {bytes : Bytes} (h : bytes.length ≤ k) :
    bytes <+: leBytes k (ofLe bytes) := by
  induction bytes generalizing k with
  | nil => exact List.nil_prefix
  | cons b bytes ih =>
    obtain ⟨k, rfl⟩ := Nat.exists_eq_succ_of_ne_zero (show k ≠ 0 by simp at h; omega)
    rw [List.length_cons] at h
    have hb := b.toNat_lt
    have hlow : UInt8.ofNat (ofLe (b :: bytes)) = b := by
      apply UInt8.toNat_inj.mp
      rw [UInt8.toNat_ofNat', ofLe]
      omega
    have hhigh : ofLe (b :: bytes) / 256 = ofLe bytes := by
      rw [ofLe]
      omega
    rw [leBytes, hlow, hhigh]
    exact List.cons_prefix_cons.mpr ⟨rfl, ih k (by omega)⟩

/-- The bytes of a field, as far as they go, are the first of those of its value. -/
theorem prefix_le32 (bytes : Bytes) (offset : ℕ) :
    (bytes.drop offset).take 4 <+: le32 (getU32 bytes offset) := by
  have hlt := (ofLe_lt ((bytes.drop offset).take 4)).trans_le
    (Nat.pow_le_pow_right (by omega) (List.length_take_le 4 _))
  rw [getU32, le32, UInt32.toNat_ofNat_of_lt' hlt]
  exact prefix_leBytes 4 (List.length_take_le _ _)

theorem prefix_le16 (bytes : Bytes) (offset : ℕ) :
    (bytes.drop offset).take 2 <+: le16 (getU16 bytes offset) := by
  have hlt := (ofLe_lt ((bytes.drop offset).take 2)).trans_le
    (Nat.pow_le_pow_right (by omega) (List.length_take_le 2 _))
  rw [getU16, le16, UInt16.toNat_ofNat_of_lt' hlt]
  exact prefix_leBytes 2 (List.length_take_le _ _)

theorem prefix_le64 (bytes : Bytes) (offset : ℕ) :
    (bytes.drop offset).take 8 <+: le64 (getU64 bytes offset) := by
  have hlt := (ofLe_lt ((bytes.drop offset).take 8)).trans_le
    (Nat.pow_le_pow_right (by omega) (List.length_take_le 8 _))
  rw [getU64, le64, UInt64.toNat_ofNat_of_lt' hlt]
  exact prefix_leBytes 8 (List.length_take_le _ _)

/-- A field whose bytes are all there has the value that they name. -/
theorem getU32_of_prefix {bytes : Bytes} {offset : ℕ} {v : UInt32}
    (hlength : offset + 4 ≤ bytes.length) (h : (bytes.drop offset).take 4 <+: le32 v) :
    getU32 bytes offset = v := by
  have hfull : (bytes.drop offset).take 4 = le32 v := by
    refine h.eq_of_length ?_
    rw [List.length_take, List.length_drop, length_le32]
    omega
  rw [getU32, hfull, ofLe_le32]

theorem getU16_of_prefix {bytes : Bytes} {offset : ℕ} {v : UInt16}
    (hlength : offset + 2 ≤ bytes.length) (h : (bytes.drop offset).take 2 <+: le16 v) :
    getU16 bytes offset = v := by
  have hfull : (bytes.drop offset).take 2 = le16 v := by
    refine h.eq_of_length ?_
    rw [List.length_take, List.length_drop, length_le16]
    omega
  rw [getU16, hfull, ofLe_le16]

/-- A field within the first bytes. -/
theorem slice_take {bytes : Bytes} {n offset width : ℕ} (h : offset + width ≤ n) :
    ((bytes.take n).drop offset).take width = (bytes.drop offset).take width := by
  rw [List.drop_take, List.take_take, Nat.min_eq_left (by omega)]

/-- The fields of a header that some bytes agree with, as far as they go. -/
structure Agrees (bytes : Bytes) (type : RecordType) (sequence : Sequence) (payload : Bytes) :
    Prop where
  magic : bytes.take 4 <+: le32 kRecordMagic
  version : (bytes.drop 4).take 2 <+: le16 kRecordFormatVersion
  type : (bytes.drop 6).take 2 <+: le16 type.toWord
  length : (bytes.drop 8).take 4 <+: le32 (UInt32.ofNat payload.length)
  sequence : (bytes.drop 12).take 8 <+: le64 sequence
  payload_crc : (bytes.drop 20).take 4 <+: le32 (crc32c payload)

/-- The first bytes of a header are those that agree with its fields. -/
theorem prefix_fields_iff {bytes : Bytes} {type : RecordType} {sequence : Sequence}
    {payload : Bytes} :
    bytes.take 24 <+: encodeHeaderFields type sequence payload ↔
      Agrees bytes type sequence payload := by
  have hlast : ((bytes.take 24).drop 20) = (bytes.drop 20).take 4 := by rw [List.drop_take]
  have hfirst : (bytes.take 24).take 4 = bytes.take 4 := by rw [List.take_take]; rfl
  unfold encodeHeaderFields
  simp only [prefix_append_iff, length_le16, length_le32, length_le64, List.drop_drop,
    Nat.reduceAdd, hlast, hfirst, slice_take (show 4 + 2 ≤ 24 by omega),
    slice_take (show 6 + 2 ≤ 24 by omega), slice_take (show 8 + 4 ≤ 24 by omega),
    slice_take (show 12 + 8 ≤ 24 by omega)]
  constructor
  · rintro ⟨h1, h2, h3, h4, h5, h6⟩
    exact ⟨h1, h2, h3, h4, h5, h6⟩
  · rintro ⟨h1, h2, h3, h4, h5, h6⟩
    exact ⟨h1, h2, h3, h4, h5, h6⟩

/-- Bytes are the first of a record when they agree with its header, its checksum and its payload. -/
theorem prefix_encode_iff {bytes : Bytes} {frame : Frame} :
    bytes <+: frame.encode ↔ Agrees bytes frame.type frame.sequence frame.payload ∧
      (bytes.drop 24).take 4 <+:
        le32 (crc32c (encodeHeaderFields frame.type frame.sequence frame.payload)) ∧
      bytes.drop 28 <+: frame.payload := by
  rw [Frame.encode, encodeRecord, encodeHeader, List.append_assoc, prefix_append_iff,
    prefix_append_iff, length_encodeHeaderFields, length_le32, List.drop_drop, prefix_fields_iff]

/-- Part of a record is a prefix that is shorter than the record. -/
theorem torn_iff_prefix {bytes : Bytes} :
    Torn bytes ↔ ∃ frame : Frame, frame.payload.length ≤ kMaxRecordPayloadBytes ∧
      bytes.length < frame.size ∧ bytes <+: frame.encode := by
  constructor
  · rintro ⟨frame, hmax, written, hwritten, rfl⟩
    exact ⟨frame, hmax, (List.length_take_le _ _).trans_lt hwritten, List.take_prefix _ _⟩
  · rintro ⟨frame, hmax, hshort, hprefix⟩
    exact ⟨frame, hmax, bytes.length, hshort, List.prefix_iff_eq_take.mp hprefix⟩

/-! ## What makes bytes part of a record -/

/-- The length of the payload that a header declares. -/
def declaredLength (bytes : Bytes) : ℕ := (getU32 bytes 8).toNat

/-- Bytes that agree with the fixed fields of a header and with a payload are part of a record. -/
theorem torn_of_fields {bytes payload : Bytes} {type : RecordType}
    (hmax : payload.length ≤ kMaxRecordPayloadBytes)
    (hshort : bytes.length < kRecordHeaderBytes + payload.length)
    (hmagic : bytes.take 4 <+: le32 kRecordMagic)
    (hversion : (bytes.drop 4).take 2 <+: le16 kRecordFormatVersion)
    (htype : (bytes.drop 6).take 2 <+: le16 type.toWord)
    (hlength : payload.length = declaredLength bytes)
    (hcrc : (bytes.drop 20).take 4 <+: le32 (crc32c payload))
    (hheader : (bytes.drop 24).take 4 <+: le32 (crc32c (bytes.take 24)))
    (hpayload : bytes.drop 28 <+: payload) : Torn bytes := by
  have hagrees : Agrees bytes type (getU64 bytes 12) payload := by
    refine ⟨hmagic, hversion, htype, ?_, prefix_le64 bytes 12, hcrc⟩
    rw [hlength, declaredLength, UInt32.ofNat_toNat]
    exact prefix_le32 bytes 8
  refine torn_iff_prefix.mpr ⟨⟨type, getU64 bytes 12, payload⟩, hmax, hshort,
    prefix_encode_iff.mpr ⟨hagrees, ?_, hpayload⟩⟩
  rcases Nat.lt_or_ge bytes.length 24 with hpart | hfull
  · rw [List.drop_eq_nil_of_le hpart.le]
    exact List.nil_prefix
  · have hfields : bytes.take 24 = encodeHeaderFields type (getU64 bytes 12) payload := by
      refine (prefix_fields_iff.mpr hagrees).eq_of_length ?_
      rw [List.length_take, length_encodeHeaderFields]
      omega
    rw [← hfields]
    exact hheader

/-- The checksum that bytes carry, as far as it goes, is that of the fields before it. -/
theorem Agrees.header_crc {bytes : Bytes} {type : RecordType} {sequence : Sequence}
    {payload : Bytes} (h : Agrees bytes type sequence payload)
    (hcrc : (bytes.drop 24).take 4 <+: le32 (crc32c (encodeHeaderFields type sequence payload))) :
    (bytes.drop 24).take 4 <+: le32 (crc32c (bytes.take 24)) := by
  rcases Nat.lt_or_ge bytes.length 24 with hpart | hfull
  · rw [List.drop_eq_nil_of_le hpart.le]
    exact List.nil_prefix
  · have hfields : bytes.take 24 = encodeHeaderFields type sequence payload := by
      refine (prefix_fields_iff.mpr h).eq_of_length ?_
      rw [List.length_take, length_encodeHeaderFields]
      omega
    rw [hfields]
    exact hcrc

/-- A length that is declared whole is that of the payload. -/
theorem Agrees.declaredLength {bytes : Bytes} {type : RecordType} {sequence : Sequence}
    {payload : Bytes} (h : Agrees bytes type sequence payload)
    (hmax : payload.length ≤ kMaxRecordPayloadBytes) (hwhole : 12 ≤ bytes.length) :
    declaredLength bytes = payload.length := by
  rw [Fcfn.declaredLength, getU32_of_prefix hwhole h.length, toNat_size]
  exact hmax.trans_lt (by decide)

/-- Bytes that agree with the fixed fields of a header as far as they go, and declare a payload that
some record has. -/
structure StartsHeader (bytes : Bytes) : Prop where
  magic : bytes.take 4 <+: le32 kRecordMagic
  version : (bytes.drop 4).take 2 <+: le16 kRecordFormatVersion
  type : ∃ type : RecordType, (bytes.drop 6).take 2 <+: le16 type.toWord
  length_le : declaredLength bytes ≤ kMaxRecordPayloadBytes
  payload_crc : declaredLength bytes < 4 → ∃ payload : Bytes,
    payload.length = declaredLength bytes ∧ (bytes.drop 20).take 4 <+: le32 (crc32c payload)
  header_crc : bytes.drop 24 <+: le32 (crc32c (bytes.take 24))

/-- Bytes that are shorter than a header are part of a record exactly when they start a header. -/
theorem torn_iff_short {bytes : Bytes} (hshort : bytes.length < kRecordHeaderBytes) :
    Torn bytes ↔ StartsHeader bytes := by
  have hheader : kRecordHeaderBytes = 28 := rfl
  have hrest : bytes.drop 28 = [] := List.drop_eq_nil_of_le (by omega)
  have hlast : (bytes.drop 24).take 4 = bytes.drop 24 :=
    List.take_of_length_le (by rw [List.length_drop]; omega)
  constructor
  · intro htorn
    obtain ⟨frame, hmax, -, hprefix⟩ := torn_iff_prefix.mp htorn
    -- what is there agrees with the header of the record, field by field
    obtain ⟨hagrees, hcrc, -⟩ := prefix_encode_iff.mp hprefix
    have hcrc' := hagrees.header_crc hcrc
    rw [hlast] at hcrc'
    rcases Nat.lt_or_ge bytes.length 12 with hpart | hwhole
    · -- the declared length is cut off, and its low bytes are within the bound
      have hsmall : declaredLength bytes < 256 ^ 3 := by
        have hlt := ofLe_lt ((bytes.drop 8).take 4)
        have hwidth : ((bytes.drop 8).take 4).length ≤ 3 := by
          rw [List.length_take, List.length_drop]
          omega
        have hlt' := hlt.trans_le (Nat.pow_le_pow_right (by omega) hwidth)
        rw [declaredLength, getU32, UInt32.toNat_ofNat_of_lt' (hlt'.trans (by decide))]
        exact hlt'
      have hnil : bytes.drop 20 = [] := List.drop_eq_nil_of_le (by omega)
      refine ⟨hagrees.magic, hagrees.version, ⟨_, hagrees.type⟩, hsmall.le.trans (by decide),
        fun _ => ⟨List.replicate (declaredLength bytes) 0, List.length_replicate, ?_⟩, hcrc'⟩
      rw [hnil]
      exact List.nil_prefix
    · have hlength := hagrees.declaredLength hmax hwhole
      exact ⟨hagrees.magic, hagrees.version, ⟨_, hagrees.type⟩, hlength ▸ hmax,
        fun _ => ⟨frame.payload, hlength.symm, hagrees.payload_crc⟩, hcrc'⟩
  · rintro ⟨hmagic, hversion, ⟨type, htype⟩, hmax, hcrc, hheader_crc⟩
    have hpayload : ∃ payload : Bytes, payload.length = declaredLength bytes ∧
        (bytes.drop 20).take 4 <+: le32 (crc32c payload) := by
      -- four bytes of payload or more can make up any checksum
      rcases Nat.lt_or_ge (declaredLength bytes) 4 with hsmall | hlarge
      · exact hcrc hsmall
      · obtain ⟨payload, hlength, hreach⟩ := exists_completion [] hlarge (getU32 bytes 20)
        refine ⟨payload, hlength, ?_⟩
        rw [List.nil_append] at hreach
        rw [hreach]
        exact prefix_le32 bytes 20
    obtain ⟨payload, hlength, hprefix⟩ := hpayload
    exact torn_of_fields (hlength ▸ hmax) (by omega) hmagic hversion htype hlength hprefix
      (hlast.symm ▸ hheader_crc) (hrest ▸ List.nil_prefix)

/-- A header that passes its checks. -/
structure IntactHeader (bytes : Bytes) : Prop where
  length_ge : kRecordHeaderBytes ≤ bytes.length
  magic : getU32 bytes 0 = kRecordMagic
  version : getU16 bytes 4 = kRecordFormatVersion
  type : (RecordType.ofWord (getU16 bytes 6)).isSome
  length_le : declaredLength bytes ≤ kMaxRecordPayloadBytes
  header_crc : crc32c (bytes.take 24) = getU32 bytes 24

/-- A number that names a record kind is its number. -/
theorem RecordType.toWord_of_ofWord {word : UInt16} {type : RecordType}
    (h : RecordType.ofWord word = some type) : type.toWord = word := by
  unfold RecordType.ofWord at h
  split at h
  · exact absurd h (by simp)
  · rename_i hne
    obtain ⟨hlt, hget⟩ := List.getElem?_eq_some_iff.mp h
    have hnodup : recordTypes.Nodup := by decide
    have hindex : recordTypes.idxOf type = word.toNat - 1 := by
      rw [← hget]
      exact hnodup.idxOf_getElem _ hlt
    have hpos : word.toNat ≠ 0 := fun hzero => hne (UInt16.toNat_inj.mp hzero)
    rw [RecordType.toWord, hindex, Nat.sub_add_cancel (by omega), UInt16.ofNat_toNat]

/-- Bytes that start with an intact header, and lack some of the payload, are part of a record exactly
when the last bytes of the payload can still make up its checksum. -/
theorem torn_iff_long {bytes : Bytes} (h : IntactHeader bytes)
    (hshort : bytes.length < kRecordHeaderBytes + declaredLength bytes) :
    Torn bytes ↔ (kRecordHeaderBytes + declaredLength bytes < bytes.length + 4 →
      ∃ more : Bytes, (bytes.drop 28 ++ more).length = declaredLength bytes ∧
        crc32c (bytes.drop 28 ++ more) = getU32 bytes 20) := by
  have hheader : kRecordHeaderBytes = 28 := rfl
  have hlong := h.length_ge
  constructor
  · intro htorn _
    obtain ⟨frame, hmax, -, hprefix⟩ := torn_iff_prefix.mp htorn
    obtain ⟨hagrees, -, more, hmore⟩ := prefix_encode_iff.mp hprefix
    refine ⟨more, ?_, ?_⟩
    · rw [hmore, hagrees.declaredLength hmax (by omega)]
    · rw [hmore, getU32_of_prefix (by omega) hagrees.payload_crc]
  · intro hlast
    obtain ⟨type, htype⟩ := Option.isSome_iff_exists.mp h.type
    have hcomplete : ∃ more : Bytes, (bytes.drop 28 ++ more).length = declaredLength bytes ∧
        crc32c (bytes.drop 28 ++ more) = getU32 bytes 20 := by
      -- with four bytes missing any checksum can still be reached
      rcases Nat.lt_or_ge (kRecordHeaderBytes + declaredLength bytes) (bytes.length + 4) with hfew | hmany
      · exact hlast hfew
      · have hmissing : 4 ≤ declaredLength bytes - (bytes.length - 28) := by omega
        obtain ⟨more, hlength, hreach⟩ := exists_completion (bytes.drop 28) hmissing (getU32 bytes 20)
        refine ⟨more, ?_, hreach⟩
        rw [List.length_append, List.length_drop, hlength]
        omega
    obtain ⟨more, hlength, hreach⟩ := hcomplete
    have hmagic := prefix_le32 bytes 0
    have hversion : (bytes.drop 4).take 2 <+: le16 (getU16 bytes 4) := prefix_le16 bytes 4
    have htype' : (bytes.drop 6).take 2 <+: le16 (getU16 bytes 6) := prefix_le16 bytes 6
    rw [h.magic, List.drop_zero] at hmagic
    rw [h.version] at hversion
    rw [← RecordType.toWord_of_ofWord htype] at htype'
    refine torn_of_fields (hlength ▸ h.length_le) (by omega) hmagic hversion htype' hlength ?_ ?_
      (List.prefix_append _ _)
    · rw [hreach]
      exact prefix_le32 bytes 20
    · rw [h.header_crc]
      exact prefix_le32 bytes 24

/-! ## What the decoder takes for part of a record -/

/-- What the decoder makes of bytes. -/
inductive Decoded (bytes : Bytes) : DecodeOutcome → Prop
  | nothing (empty : bytes = []) : Decoded bytes .noMoreData
  | short (nonempty : bytes ≠ []) (short : bytes.length < kRecordHeaderBytes) (detail : String) :
    Decoded bytes (.tornTail detail)
  | broken (nonempty : bytes ≠ []) (long : ¬ bytes.length < kRecordHeaderBytes)
      (broken : ¬ IntactHeader bytes) (status : FrameStatus) (detail : String) :
    Decoded bytes (.refused status detail)
  | incomplete (intact : IntactHeader bytes)
      (incomplete : bytes.length < kRecordHeaderBytes + declaredLength bytes) (detail : String) :
    Decoded bytes (.tornTail detail)
  | damaged (nonempty : bytes ≠ []) (long : ¬ bytes.length < kRecordHeaderBytes)
      (complete : ¬ bytes.length < kRecordHeaderBytes + declaredLength bytes)
      (status : FrameStatus) (detail : String) :
    Decoded bytes (.refused status detail)
  | record (nonempty : bytes ≠ []) (long : ¬ bytes.length < kRecordHeaderBytes)
      (complete : ¬ bytes.length < kRecordHeaderBytes + declaredLength bytes) (frame : Frame)
      (consumed : ℕ) :
    Decoded bytes (.ok frame consumed)

/-- The decoder classifies its input. -/
theorem decodeRecord_decoded (bytes : Bytes) : Decoded bytes (decodeRecord bytes) := by
  unfold decodeRecord
  by_cases hnil : bytes = []
  · rw [if_pos hnil]
    exact .nothing hnil
  by_cases hshort : bytes.length < kRecordHeaderBytes
  · rw [if_neg hnil, if_pos hshort]
    exact .short hnil hshort _
  rw [if_neg hnil, if_neg hshort]
  -- each check that fails says which field the header does not have
  dsimp only
  split
  · rename_i hmagic
    exact .broken hnil hshort (fun h => hmagic h.magic) _ _
  rename_i hmagic
  split
  · rename_i hversion
    exact .broken hnil hshort (fun h => hversion h.version) _ _
  rename_i hversion
  split
  · rename_i htype
    have hnone : RecordType.ofWord (getU16 bytes 6) = none := htype
    exact .broken hnil hshort (fun h => absurd h.type (by rw [hnone]; simp)) _ _
  rename_i type htype
  have hsome : (RecordType.ofWord (getU16 bytes 6)).isSome := Option.isSome_of_eq_some htype
  split
  · rename_i hmax
    exact .broken hnil hshort (fun h => absurd h.length_le (not_le.mpr hmax)) _ _
  rename_i hmax
  split
  · rename_i hcrc
    exact .broken hnil hshort (fun h => hcrc h.header_crc) _ _
  rename_i hcrc
  split
  · rename_i hpayload
    rw [ne_eq, not_not] at hmagic hversion hcrc
    exact .incomplete ⟨not_lt.mp hshort, hmagic, hversion, hsome, not_lt.mp hmax, hcrc⟩
      hpayload _
  · rename_i hpayload
    split
    · exact .damaged hnil hshort hpayload _ _
    · exact .record hnil hshort hpayload _ _

/-- The decoder calls torn whatever is shorter than a header, and an intact header without all of its
payload. -/
theorem decodeRecord_tornTail_iff {bytes : Bytes} :
    (∃ detail, decodeRecord bytes = .tornTail detail) ↔
      (bytes ≠ [] ∧ bytes.length < kRecordHeaderBytes) ∨
        IntactHeader bytes ∧ bytes.length < kRecordHeaderBytes + declaredLength bytes := by
  have hlong : IntactHeader bytes → ¬ bytes.length < kRecordHeaderBytes :=
    fun h => not_lt.mpr h.length_ge
  have hdecoded := decodeRecord_decoded bytes
  generalize decodeRecord bytes = outcome at hdecoded
  cases hdecoded with
  | nothing empty =>
    refine iff_of_false (by simp) (not_or.mpr ⟨fun h => h.1 empty, fun h => ?_⟩)
    exact hlong h.1 (by rw [empty]; decide)
  | short nonempty short detail => exact iff_of_true ⟨_, rfl⟩ (Or.inl ⟨nonempty, short⟩)
  | broken nonempty long broken status detail =>
    exact iff_of_false (by simp) (not_or.mpr ⟨fun h => long h.2, fun h => broken h.1⟩)
  | incomplete intact incomplete detail => exact iff_of_true ⟨_, rfl⟩ (Or.inr ⟨intact, incomplete⟩)
  | damaged nonempty long complete status detail =>
    exact iff_of_false (by simp) (not_or.mpr ⟨fun h => long h.2, fun h => complete h.2⟩)
  | record nonempty long complete frame consumed =>
    exact iff_of_false (by simp) (not_or.mpr ⟨fun h => long h.2, fun h => complete h.2⟩)

/-- The bytes at the end of a log that are no whole record are part of one, or nothing: the decoder
calls nothing else torn, and a replay does not return over anything else. -/
def OnlyPrefixesRepaired (tail : Bytes) : Prop :=
  (∀ detail, decodeRecord tail = .tornTail detail → tail ≠ [] ∧ Torn tail) ∧
    ((∀ frame consumed, decodeRecord tail ≠ .ok frame consumed) → ¬ Torn tail →
      ∀ (env : FileEnv) (options : StoreOptions) (path : Bytes) (sequence : Sequence)
        (dir : StoreDir) (frames : List Frame),
        (∀ frame ∈ frames, frame.payload.length ≤ kMaxRecordPayloadBytes) →
        (frames.Pairwise fun f g => f.sequence < g.sequence) →
        (frames.flatMap Frame.encode ++ tail).length ≤ kMaxWalFileBytes →
        dir.read path = some (frames.flatMap Frame.encode ++ tail) →
        ∃ status, FileStore.replayLog env options path sequence dir = (.error status, []) ∧
          (status.code = .corrupt ∨ status.code = .versionUnsupported))

/-- Bytes shorter than a header start one, and an intact header that lacks one to three bytes of its
payload can be completed to the checksum it carries. -/
def TailFits (tail : Bytes) : Prop :=
  (tail ≠ [] → tail.length < kRecordHeaderBytes → StartsHeader tail) ∧
    (IntactHeader tail → tail.length < kRecordHeaderBytes + declaredLength tail →
      kRecordHeaderBytes + declaredLength tail < tail.length + 4 →
      ∃ more : Bytes, (tail.drop 28 ++ more).length = declaredLength tail ∧
        crc32c (tail.drop 28 ++ more) = getU32 tail 20)

/-- The decoder calls nothing torn but parts of records exactly when the bytes fit. -/
theorem torn_of_tornTail_iff {tail : Bytes} :
    (∀ detail, decodeRecord tail = .tornTail detail → tail ≠ [] ∧ Torn tail) ↔ TailFits tail := by
  constructor
  · intro h
    refine ⟨fun hne hshort => ?_, fun hintact hpayload => ?_⟩
    · obtain ⟨detail, hdecode⟩ := decodeRecord_tornTail_iff.mpr (Or.inl ⟨hne, hshort⟩)
      exact (torn_iff_short hshort).mp (h detail hdecode).2
    · obtain ⟨detail, hdecode⟩ := decodeRecord_tornTail_iff.mpr (Or.inr ⟨hintact, hpayload⟩)
      exact (torn_iff_long hintact hpayload).mp (h detail hdecode).2
  · rintro ⟨hstarts, hlast⟩ detail hdecode
    rcases decodeRecord_tornTail_iff.mp ⟨detail, hdecode⟩ with ⟨hne, hshort⟩ | ⟨hintact, hpayload⟩
    · exact ⟨hne, (torn_iff_short hshort).mpr (hstarts hne hshort)⟩
    · refine ⟨?_, (torn_iff_long hintact hpayload).mpr (hlast hintact hpayload)⟩
      rintro rfl
      exact absurd hintact.length_ge (by decide)

/-- A replay stops at bytes that are refused. -/
theorem replayLog_of_refused {env : FileEnv} {options : StoreOptions} {path tail : Bytes}
    {dir : StoreDir} {frames : List Frame}
    (hframes : ∀ frame ∈ frames, frame.payload.length ≤ kMaxRecordPayloadBytes)
    (hascending : frames.Pairwise fun f g => f.sequence < g.sequence)
    (hsize : (frames.flatMap Frame.encode ++ tail).length ≤ kMaxWalFileBytes)
    (hread : dir.read path = some (frames.flatMap Frame.encode ++ tail)) {status : FrameStatus}
    {detail : String} (hrefused : decodeRecord tail = .refused status detail) (sequence : Sequence) :
    FileStore.replayLog env options path sequence dir =
      (fail (if status = .unsupportedVersion then .versionUnsupported else .corrupt) detail, []) := by
  obtain ⟨previous, last, hfold⟩ := @scan_ascending frames hascending
    { last_sequence := sequence } (by simp)
  have hlength := length_le_flatMap_encode frames
  have hbytes : (frames.flatMap Frame.encode ++ tail).length =
      (frames.flatMap Frame.encode).length + tail.length := List.length_append
  -- a record takes a byte at least, so the fuel lasts to the tail
  have hfuel : frames.length ≤ (frames.flatMap Frame.encode ++ tail).length + 1 := by omega
  have hscan := scanLog_append hframes hfuel tail { last_sequence := sequence }
  obtain ⟨left, hleft⟩ := Nat.exists_eq_succ_of_ne_zero
    (show (frames.flatMap Frame.encode ++ tail).length + 1 - frames.length ≠ 0 by omega)
  rw [hfold, hleft] at hscan
  -- whatever was read before, the tail ends the scan with an error
  have hstop : ∀ scan : Scan, FileStore.scanLog (left + 1) tail scan =
      fail (if status = .unsupportedVersion then .versionUnsupported else .corrupt) detail := by
    intro scan
    rw [FileStore.scanLog, hrefused]
  have hraw : readFile path kMaxWalFileBytes dir =
      .ok (frames.flatMap Frame.encode ++ tail) := by
    unfold readFile
    rw [hread]
    simp only
    rw [if_neg (by omega)]
  have hexists : (fun dir : StoreDir => (.ok (dir.read path).isSome : Result Bool)) dir =
      .ok true := by
    simp only [hread, Option.isSome_some]
  unfold FileStore.replayLog fileExists
  rw [look_bind hexists, if_pos rfl, look_bind hraw]
  refine bind_error ?_
  rw [look, hscan]
  exact congrArg (·, []) (hstop _)

/-- For every tail of a log: only a strict prefix of a record is repaired, and anything else is refused,
exactly when the tail fits. -/
theorem only_prefixes_repaired (tail : Bytes) : OnlyPrefixesRepaired tail ↔ TailFits tail := by
  rw [← torn_of_tornTail_iff]
  constructor
  · exact fun h => h.1
  · intro h
    refine ⟨h, fun hstopped hnot env options path sequence dir frames hframes hascending hsize hread => ?_⟩
    cases hdecode : decodeRecord tail with
    | ok frame consumed => exact absurd hdecode (hstopped frame consumed)
    | noMoreData =>
      have hdecoded := decodeRecord_decoded tail
      rw [hdecode] at hdecoded
      cases hdecoded with
      | nothing empty => exact absurd (empty ▸ torn_nil) hnot
    | tornTail detail => exact absurd (h detail hdecode).2 hnot
    | refused status detail =>
      refine ⟨_, replayLog_of_refused hframes hascending hsize hread hdecode sequence, ?_⟩
      simp only
      split
      · exact Or.inr rfl
      · exact Or.inl rfl

/-- One byte that no record starts with is taken for a torn record. -/
theorem stray_byte_repaired : ¬ ∀ tail, OnlyPrefixesRepaired tail := by
  intro h
  have hstarts := (torn_of_tornTail_iff.mp (h [0]).1).1 (by decide) (by decide)
  exact absurd hstarts.magic (by decide)

end Fcfn
