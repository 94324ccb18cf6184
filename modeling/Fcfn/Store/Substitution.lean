import Fcfn.Store.Checksum
import Fcfn.Store.Reading

/-!
# Substituted bytes

What becomes of a record, of a snapshot file and of the pointer when one byte is another. A complete
record and a snapshot file are refused (`decodeRecord_set`, `decodeSnapshotFile_set`), part of a
record is not taken for a record (`decodeRecord_torn_set`), and a pointer that is still decoded is
the same (`decodeCurrent_set`). -/

namespace Fcfn

open Words

variable {bytes : Bytes} {i offset : ℕ} {a b : UInt8}

/-! ## Words -/

/-- A number is another one when one of its bytes is. -/
theorem ofLe_set_ne (hi : bytes[i]? = some a) (hne : a ≠ b) : ofLe (bytes.set i b) ≠ ofLe bytes := by
  induction bytes generalizing i with
  | nil => exact absurd hi (by simp)
  | cons c bytes ih =>
    have hc := c.toNat_lt
    have hb := b.toNat_lt
    cases i with
    | zero =>
      intro h
      obtain rfl := Option.some.inj hi
      simp only [List.set_cons_zero, ofLe] at h
      have hsame : b.toNat = c.toNat := by omega
      exact hne (UInt8.toNat_inj.mp hsame.symm)
    | succ i =>
      intro h
      simp only [List.set_cons_succ, ofLe] at h
      exact ih hi (by omega)

/-- A number fits in its bytes. -/
theorem ofLe_lt (bytes : Bytes) : ofLe bytes < 256 ^ bytes.length := by
  induction bytes with
  | nil => simp [ofLe]
  | cons c bytes ih =>
    have hc := c.toNat_lt
    rw [ofLe, List.length_cons, pow_succ]
    omega

/-- The bytes of a field, after a substitution in it. -/
theorem field_set {width : ℕ} (hlow : offset ≤ i) :
    ((bytes.set i b).drop offset).take width = ((bytes.drop offset).take width).set (i - offset) b := by
  rw [List.drop_set, if_neg (by omega), List.take_set]

/-- The bytes of a field, after a substitution elsewhere. -/
theorem field_set_of_not_mem {width : ℕ} (h : i < offset ∨ offset + width ≤ i) :
    ((bytes.set i b).drop offset).take width = (bytes.drop offset).take width := by
  rcases h with hbefore | hafter
  · rw [List.drop_set, if_pos hbefore]
  · rw [field_set (by omega), List.set_eq_of_length_le]
    rw [List.length_take]
    omega

/-- A field is another number after a substitution in it. -/
theorem ofLe_field_set_ne {width : ℕ} (hlow : offset ≤ i) (hhigh : i < offset + width)
    (hi : bytes[i]? = some a) (hne : a ≠ b) :
    ofLe (((bytes.set i b).drop offset).take width) ≠ ofLe ((bytes.drop offset).take width) := by
  rw [field_set hlow]
  refine ofLe_set_ne ?_ hne
  rw [List.getElem?_take, if_pos (by omega), List.getElem?_drop, Nat.add_sub_cancel' hlow, hi]

/-- Numbers of a width that words tell apart. -/
theorem ofLe_field_lt (offset width : ℕ) : ofLe ((bytes.drop offset).take width) < 256 ^ width :=
  lt_of_lt_of_le (ofLe_lt _) (Nat.pow_le_pow_right (by decide) (List.length_take_le _ _))

theorem getU16_set_ne (hlow : offset ≤ i) (hhigh : i < offset + 2) (hi : bytes[i]? = some a)
    (hne : a ≠ b) : getU16 (bytes.set i b) offset ≠ getU16 bytes offset := by
  intro h
  have hnat := congrArg UInt16.toNat h
  have hlt : ∀ bytes : Bytes, ofLe ((bytes.drop offset).take 2) < 2 ^ 16 := fun bytes =>
    @ofLe_field_lt bytes offset 2
  rw [getU16, getU16, UInt16.toNat_ofNat', UInt16.toNat_ofNat', Nat.mod_eq_of_lt (hlt _),
    Nat.mod_eq_of_lt (hlt _)] at hnat
  exact ofLe_field_set_ne hlow hhigh hi hne hnat

theorem getU32_set_ne (hlow : offset ≤ i) (hhigh : i < offset + 4) (hi : bytes[i]? = some a)
    (hne : a ≠ b) : getU32 (bytes.set i b) offset ≠ getU32 bytes offset := by
  intro h
  have hnat := congrArg UInt32.toNat h
  have hlt : ∀ bytes : Bytes, ofLe ((bytes.drop offset).take 4) < 2 ^ 32 := fun bytes =>
    @ofLe_field_lt bytes offset 4
  rw [getU32, getU32, UInt32.toNat_ofNat', UInt32.toNat_ofNat', Nat.mod_eq_of_lt (hlt _),
    Nat.mod_eq_of_lt (hlt _)] at hnat
  exact ofLe_field_set_ne hlow hhigh hi hne hnat

theorem getU32_set_of_not_mem (h : i < offset ∨ offset + 4 ≤ i) :
    getU32 (bytes.set i b) offset = getU32 bytes offset := by
  rw [getU32, field_set_of_not_mem h, getU32]

/-! ## Records -/

/-- Bytes whose header does not pass its checksum are refused. -/
theorem decodeRecord_refused (hlength : kRecordHeaderBytes ≤ bytes.length)
    (hcrc : crc32c (bytes.take 24) ≠ getU32 bytes 24) :
    ∃ status detail, decodeRecord bytes = .refused status detail := by
  have hne : bytes ≠ [] := by
    rintro rfl
    exact absurd hlength (by decide)
  have hheader : crc32c (bytes.take 24) ≠ (decodeHeader bytes).header_crc := hcrc
  unfold decodeRecord
  rw [if_neg hne, if_neg (by omega)]
  by_cases hmagic : (decodeHeader bytes).magic ≠ kRecordMagic
  · exact ⟨_, _, if_pos hmagic⟩
  by_cases hversion : (decodeHeader bytes).version ≠ kRecordFormatVersion
  · exact ⟨_, _, (if_neg hmagic).trans (if_pos hversion)⟩
  simp only
  rw [if_neg hmagic, if_neg hversion]
  cases RecordType.ofWord (decodeHeader bytes).type with
  | none => exact ⟨_, _, rfl⟩
  | some type =>
    by_cases hbound : (decodeHeader bytes).payload_length.toNat > kMaxRecordPayloadBytes
    · exact ⟨_, _, if_pos hbound⟩
    · exact ⟨_, _, (if_neg hbound).trans (if_pos hheader)⟩

/-- A header with another byte is refused, whatever follows it. -/
theorem decodeRecord_header_set {type : RecordType} {sequence : Sequence} {payload rest : Bytes}
    (hheader : i < kRecordHeaderBytes)
    (hi : (encodeHeader type sequence payload ++ rest)[i]? = some a) (hne : a ≠ b) :
    ∃ status detail, decodeRecord ((encodeHeader type sequence payload ++ rest).set i b) =
      .refused status detail := by
  have hlength : (encodeHeader type sequence payload ++ rest).length =
      kRecordHeaderBytes + rest.length := by
    rw [List.length_append, length_encodeHeader]
  have hbytes : encodeHeader type sequence payload ++ rest =
      encodeHeaderFields type sequence payload ++
        (le32 (crc32c (encodeHeaderFields type sequence payload)) ++ rest) := by
    rw [encodeHeader, List.append_assoc]
  have hcrc : getU32 (encodeHeader type sequence payload ++ rest) 24 =
      crc32c (encodeHeaderFields type sequence payload) := by
    rw [hbytes]
    exact getU32_append 24 _ _ _ (length_encodeHeaderFields ..)
  refine decodeRecord_refused (by rw [List.length_set]; omega) ?_
  rw [List.take_set, hbytes, List.take_left' (length_encodeHeaderFields ..), ← hbytes]
  have hwidth : i < 24 + 4 := hheader
  rcases Nat.lt_or_ge i 24 with hfields | hfields
  · -- the checksum covers the byte
    rw [getU32_set_of_not_mem (Or.inl hfields), hcrc]
    rw [hbytes, List.getElem?_append_left (by rwa [length_encodeHeaderFields])] at hi
    exact crc32c_set_ne hi hne
  · -- the byte is one of the checksum
    rw [List.set_eq_of_length_le (by rw [length_encodeHeaderFields]; exact hfields)]
    intro h
    exact getU32_set_ne hfields hwidth hi hne (h.symm.trans hcrc.symm)

/-- A complete record with another byte is refused. -/
theorem decodeRecord_set {frame : Frame} (hmax : frame.payload.length ≤ kMaxRecordPayloadBytes)
    {rest : Bytes} (hsize : i < frame.size) (hi : (frame.encode ++ rest)[i]? = some a) (hne : a ≠ b) :
    ∃ status detail, decodeRecord ((frame.encode ++ rest).set i b) = .refused status detail := by
  have hbytes : frame.encode ++ rest =
      encodeHeader frame.type frame.sequence frame.payload ++ (frame.payload ++ rest) := by
    rw [Frame.encode, encodeRecord, List.append_assoc]
  have hlength : (encodeHeader frame.type frame.sequence frame.payload).length =
      kRecordHeaderBytes := length_encodeHeader ..
  rw [hbytes] at hi ⊢
  rcases Nat.lt_or_ge i kRecordHeaderBytes with hheader | hheader
  · exact decodeRecord_header_set hheader hi hne
  · have hlt : i - kRecordHeaderBytes < frame.payload.length := by
      rw [Frame.size] at hsize
      omega
    rw [List.getElem?_append_right (by rw [hlength]; exact hheader), hlength,
      List.getElem?_append_left hlt] at hi
    rw [List.set_append_right _ _ (by rw [hlength]; exact hheader), hlength,
      List.set_append_left _ _ hlt, decodeRecord_header (lt_of_le_of_lt hmax (by decide)),
      if_neg (by omega), if_neg (by simp), List.take_left' (List.length_set ..),
      if_pos (crc32c_set_ne hi hne)]
    exact ⟨_, _, rfl⟩

/-- Part of a record with another byte is no record. -/
theorem decodeRecord_torn_set (htorn : Torn bytes) (hi : bytes[i]? = some a) (hne : a ≠ b) :
    (∃ status detail, decodeRecord (bytes.set i b) = .refused status detail) ∨
      ∃ detail, decodeRecord (bytes.set i b) = .tornTail detail := by
  obtain ⟨hlt, -⟩ := List.getElem?_eq_some_iff.mp hi
  obtain ⟨frame, hmax, written, hwritten, rfl⟩ := htorn
  by_cases hshort : written < kRecordHeaderBytes
  · refine Or.inr ⟨"fewer bytes than a record header", ?_⟩
    have hlength : ((frame.encode.take written).set i b).length < kRecordHeaderBytes := by
      rw [List.length_set]
      exact lt_of_le_of_lt (List.length_take_le _ _) hshort
    have hsome : (frame.encode.take written).set i b ≠ [] := by
      rw [Ne, List.set_eq_nil_iff]
      rintro hnil
      rw [hnil] at hlt
      exact absurd hlt (Nat.not_lt_zero i)
    unfold decodeRecord
    rw [if_neg hsome, if_pos hlength]
  · have hpart : frame.encode.take written =
        encodeHeader frame.type frame.sequence frame.payload ++
          frame.payload.take (written - kRecordHeaderBytes) := by
      rw [Frame.encode, encodeRecord, List.take_append, length_encodeHeader,
        List.take_of_length_le (by rw [length_encodeHeader]; omega)]
    have hlength : (encodeHeader frame.type frame.sequence frame.payload).length =
        kRecordHeaderBytes := length_encodeHeader ..
    rw [hpart] at hi ⊢
    rcases Nat.lt_or_ge i kRecordHeaderBytes with hheader | hheader
    · exact Or.inl (decodeRecord_header_set hheader hi hne)
    · rw [List.set_append_right _ _ (by rw [hlength]; exact hheader),
        decodeRecord_header (lt_of_le_of_lt hmax (by decide)), if_neg (by omega), if_pos]
      · exact Or.inr ⟨_, rfl⟩
      · rw [Frame.size] at hwritten
        rw [List.length_set, List.length_take]
        omega

/-! ## Snapshot files -/

/-- A snapshot file with another byte is refused. -/
theorem decodeSnapshotFile_set {payload : Bytes} (hlen : payload.length < 2 ^ 32)
    (hi : (encodeSnapshotFile payload)[i]? = some a) (hne : a ≠ b) (decoded : Bytes) :
    decodeSnapshotFile ((encodeSnapshotFile payload).set i b) ≠ .ok decoded := by
  obtain ⟨hmagic, hversion, hlength, hcrc, hpayload⟩ := encodeSnapshotFile_fields payload
  generalize hbytes : encodeSnapshotFile payload = bytes at *
  have hsize : bytes.length = 18 + payload.length := by
    rw [← hbytes, length_encodeSnapshotFile]
  intro h
  unfold decodeSnapshotFile at h
  simp only [require_bind_eq_ok, decide_eq_true_eq, beq_iff_eq, List.length_set] at h
  obtain ⟨-, hmagic', hversion', -, hlow, hhigh, hcrc', -⟩ := h
  -- a field of the header is compared with what the payload says, so no byte of it changed
  have hfields : 18 ≤ i := by
    by_contra hlt
    rcases Nat.lt_or_ge i 8 with h8 | h8
    · have hbyte := congrArg (fun field : Bytes => field[i]?) (hmagic'.trans hmagic.symm)
      simp only [List.getElem?_take, if_pos h8, hi, List.getElem?_set, if_true] at hbyte
      rw [if_pos (by omega)] at hbyte
      exact hne (Option.some.inj hbyte).symm
    rcases Nat.lt_or_ge i 10 with h10 | h10
    · exact getU16_set_ne h8 h10 hi hne (hversion'.trans hversion.symm)
    rcases Nat.lt_or_ge i 14 with h14 | h14
    · refine getU32_set_ne h10 h14 hi hne (UInt32.toNat_inj.mp ?_)
      rw [hlength, toNat_size hlen]
      omega
    · rw [getU32_set_of_not_mem (Or.inr h14), hlength, toNat_size hlen, List.drop_set,
        if_pos (by omega), hpayload, List.take_length] at hcrc'
      exact getU32_set_ne h14 (by omega) hi hne (hcrc'.symm.trans hcrc.symm)
  rw [getU32_set_of_not_mem (Or.inr (by omega)), getU32_set_of_not_mem (Or.inr hfields), hlength,
    toNat_size hlen, List.drop_set, if_neg (by omega), hpayload, hcrc,
    List.take_of_length_le (by rw [List.length_set])] at hcrc'
  -- the byte is one of the payload, which the checksum covers
  refine crc32c_set_ne ?_ hne hcrc'
  rw [← hpayload, List.getElem?_drop, Nat.add_sub_cancel' hfields, hi]

/-! ## The pointer -/

/-- What is found is there. -/
theorem rfind_spec {pattern text : Bytes} {marker : ℕ} (h : rfind pattern text = some marker) :
    pattern <+: text.drop marker := by
  induction text generalizing marker with
  | nil => exact absurd h (by simp [rfind])
  | cons c text ih =>
    rw [rfind] at h
    split at h
    · rename_i found hfound
      obtain rfl := Option.some.inj h
      exact ih hfound
    · split at h
      · rename_i hlead
        obtain rfl := Option.some.inj h
        exact List.isPrefixOf_iff_prefix.mp hlead
      · exact absurd h (by simp)

/-- A text that is decoded has its checksum behind the mark, and then line ends only. -/
theorem decodeCurrent_of_ok {text : Bytes} {pointer : CurrentPointer}
    (h : decodeCurrent text = .ok pointer) :
    ∃ marker ends, rfind (bytesOf "crc ") text = some marker ∧
      text = text.take marker ++ (bytesOf "crc " ++
        (hexDigits 8 (crc32c (text.take marker)).toNat ++ ends)) ∧
          ∀ c ∈ ends, c = byteOf '\n' ∨ c = byteOf '\r' := by
  unfold decodeCurrent at h
  rw [require_bind_eq_ok] at h
  obtain ⟨-, h⟩ := h
  cases hfind : rfind (bytesOf "crc ") text with
  | none =>
    rw [hfind] at h
    exact absurd h (by simp [fail])
  | some marker =>
    rw [hfind] at h
    simp only at h
    rw [require_bind_eq_ok, beq_iff_eq] at h
    obtain ⟨htrimmed, -⟩ := h
    obtain ⟨rest, hrest⟩ := rfind_spec hfind
    have hmark : (bytesOf "crc ").length = 4 := by decide
    have hbehind : text.drop (marker + 4) = rest := by
      rw [← List.drop_drop, ← hrest, List.drop_left' hmark]
    rw [hbehind] at htrimmed
    refine ⟨marker, rest.rtakeWhile fun c => c == byteOf '\n' || c == byteOf '\r', rfl, ?_, ?_⟩
    · rw [← htrimmed, List.rdropWhile_append_rtakeWhile, hrest, List.take_append_drop]
    · intro c hc
      simpa using List.mem_rtakeWhile_imp hc

/-- The bytes of a pointer from the end of its lines on. -/
theorem encodeCurrent_getElem? (pointer : CurrentPointer) (k : ℕ) :
    (encodeCurrent pointer)[(encodeCurrentFields pointer).length + k]? =
      (bytesOf "crc " ++ (hexDigits 8 (crc32c (encodeCurrentFields pointer)).toNat ++
        bytesOf "\n"))[k]? := by
  rw [encodeCurrent, List.getElem?_append_right (Nat.le_add_right _ _), Nat.add_sub_cancel_left]

/-- The digits of the checksum are no line ends. -/
theorem encodeCurrent_digit (pointer : CurrentPointer) {k : ℕ} (hk : k < 8) {c : UInt8}
    (h : (encodeCurrent pointer)[(encodeCurrentFields pointer).length + (4 + k)]? = some c) :
    ¬ (c = byteOf '\n' ∨ c = byteOf '\r') := by
  have hmark : (bytesOf "crc ").length = 4 := by decide
  rw [encodeCurrent_getElem?, List.getElem?_append_right (by omega), hmark, Nat.add_sub_cancel_left,
    List.getElem?_append_left (by rwa [length_hexDigits])] at h
  obtain ⟨-, hn, hr⟩ := mem_hexDigits (List.mem_of_getElem? h)
  rintro (rfl | rfl)
  · exact hn rfl
  · exact hr rfl

/-- The lines of a pointer end. -/
theorem encodeCurrentFields_last (pointer : CurrentPointer) :
    (encodeCurrentFields pointer)[(encodeCurrentFields pointer).length - 1]? =
      some (byteOf '\n') := by
  rw [← List.getLast?_eq_getElem?, encodeCurrentFields, List.getLast?_append]
  rfl

/-- The checksum covers the lines of a pointer. -/
theorem decodeCurrent_fields_set {pointer pointer' : CurrentPointer}
    (hfields : i < (encodeCurrentFields pointer).length) (hi : (encodeCurrent pointer)[i]? = some a)
    (hne : a ≠ b) : decodeCurrent ((encodeCurrent pointer).set i b) ≠ .ok pointer' := by
  intro h
  obtain ⟨marker, ends, hfind, htext, -⟩ := decodeCurrent_of_ok h
  have hmark : (bytesOf "crc ").length = 4 := by decide
  have hblank : byteOf ' ' ∉ hexDigits 8 (crc32c (encodeCurrentFields pointer)).toNat ++
      bytesOf "\n" := by
    rw [List.mem_append]
    rintro (hdigit | hend)
    · exact (mem_hexDigits hdigit).1 rfl
    · exact absurd hend (by decide)
  rw [encodeCurrent, List.getElem?_append_left hfields] at hi
  have hset : (encodeCurrent pointer).set i b = (encodeCurrentFields pointer).set i b ++
      (bytesOf "crc " ++ (hexDigits 8 (crc32c (encodeCurrentFields pointer)).toNat ++
        bytesOf "\n")) := by
    rw [encodeCurrent, List.set_append_left _ _ hfields]
  rw [hset, rfind_append hblank, Option.some.injEq] at hfind
  rw [hset, List.take_left' hfind] at htext
  obtain ⟨-, hrest⟩ := List.append_inj htext rfl
  obtain ⟨-, hdigits⟩ := List.append_inj hrest rfl
  obtain ⟨hsame, -⟩ := List.append_inj hdigits (by rw [length_hexDigits, length_hexDigits])
  have hlt : ∀ crc : UInt32, crc.toNat < 16 ^ 8 := fun crc => crc.toNat_lt
  exact crc32c_set_ne hi hne (UInt32.toNat_inj.mp (hexDigits_injective (hlt _) (hlt _) hsame)).symm

/-- A pointer with another byte is refused, or is the same pointer. -/
theorem decodeCurrent_set {pointer pointer' : CurrentPointer} (hsegment : pointer.wal ≠ 0)
    (hi : (encodeCurrent pointer)[i]? = some a) (hne : a ≠ b)
    (h : decodeCurrent ((encodeCurrent pointer).set i b) = .ok pointer') : pointer' = pointer := by
  have hlength := length_encodeCurrent pointer
  rcases Nat.lt_or_ge i (encodeCurrentFields pointer).length with hfields | hfields
  · exact absurd h (decodeCurrent_fields_set hfields hi hne)
  obtain ⟨marker, ends, hfind, htext, hends⟩ := decodeCurrent_of_ok h
  have hmark : (bytesOf "crc ").length = 4 := by decide
  obtain ⟨rest, hrest⟩ := rfind_spec hfind
  have hother : ∀ k, k ≠ i → ((encodeCurrent pointer).set i b)[k]? = (encodeCurrent pointer)[k]? :=
    fun k hk => List.getElem?_set_ne hk.symm
  have hfound : ∀ k < 4, ((encodeCurrent pointer).set i b)[marker + k]? = (bytesOf "crc ")[k]? := by
    intro k hk
    rw [← List.getElem?_drop, ← hrest, List.getElem?_append_left (by rwa [hmark])]
  -- the digits fill all that is between the mark and the line ends
  have hmarker : marker + 12 + ends.length = (encodeCurrentFields pointer).length + 13 := by
    have hle : marker < ((encodeCurrent pointer).set i b).length :=
      (List.getElem?_eq_some_iff.mp (hfound 0 (by decide))).1
    have htotal := congrArg List.length htext
    rw [List.length_set, hlength] at hle
    rw [List.length_append, List.length_append, List.length_append, hmark, length_hexDigits,
      List.length_take, List.length_set, hlength, Nat.min_eq_left (by omega)] at htotal
    omega
  have hend : ∀ k, marker + 12 ≤ k → ∀ c, ((encodeCurrent pointer).set i b)[k]? = some c →
      c = byteOf '\n' ∨ c = byteOf '\r' := by
    intro k hk c hc
    have htake : (((encodeCurrent pointer).set i b).take marker).length = marker := by
      rw [List.length_take, List.length_set, hlength, Nat.min_eq_left (by omega)]
    rw [htext, List.getElem?_append_right (by omega), htake, List.getElem?_append_right (by omega),
      hmark, List.getElem?_append_right (by rw [length_hexDigits]; omega)] at hc
    exact hends c (List.mem_of_getElem? hc)
  rcases Nat.lt_trichotomy marker (encodeCurrentFields pointer).length with hbefore | hsame | hafter
  · -- two line ends at least, so the last digit is one, and the mark starts at the end of a line
    have hdigit : ∀ k < 8, marker + 12 ≤ (encodeCurrentFields pointer).length + (4 + k) →
        (encodeCurrentFields pointer).length + (4 + k) = i := by
      intro k hk hbehind
      by_contra hne
      obtain ⟨c, hc⟩ : ∃ c,
          (encodeCurrent pointer)[(encodeCurrentFields pointer).length + (4 + k)]? = some c :=
        ⟨_, List.getElem?_eq_getElem (by omega)⟩
      exact encodeCurrent_digit pointer hk hc (hend _ hbehind c (by rw [hother _ hne, hc]))
    have hlast := hdigit 7 (by decide) (by omega)
    have hmarked : marker = (encodeCurrentFields pointer).length - 1 := by
      by_contra hearly
      have hsecond := hdigit 6 (by decide) (by omega)
      omega
    have hc := hfound 0 (by decide)
    rw [Nat.add_zero, hother _ (by omega), hmarked, encodeCurrent,
      List.getElem?_append_left (by omega), encodeCurrentFields_last] at hc
    exact absurd hc (by decide)
  · have htake : ((encodeCurrent pointer).set i b).take marker = encodeCurrentFields pointer := by
      rw [List.take_set, List.set_eq_of_length_le (by rw [List.length_take]; omega), encodeCurrent,
        List.take_left' hsame.symm]
    rw [htake] at htext
    rw [htext, decodeCurrent_ends pointer (by omega) hends, if_neg hsegment] at h
    exact (Except.ok.inj h).symm
  · -- the mark is one byte late, so two of its bytes are other ones
    have hlate : marker = (encodeCurrentFields pointer).length + 1 := by omega
    have hmoved : ∀ k < 4, (bytesOf "crc " ++ (hexDigits 8 (crc32c
        (encodeCurrentFields pointer)).toNat ++ bytesOf "\n"))[1 + k]? ≠ (bytesOf "crc ")[k]? →
          (encodeCurrentFields pointer).length + (1 + k) = i := by
      intro k hk hdiffers
      by_contra hne
      have hc := hfound k hk
      rw [hlate, Nat.add_assoc, hother _ hne, encodeCurrent_getElem?] at hc
      exact hdiffers hc
    have hfirst := hmoved 0 (by decide) (by simp [bytesOf]; decide)
    have hsecond := hmoved 1 (by decide) (by simp [bytesOf]; decide)
    omega

end Fcfn
