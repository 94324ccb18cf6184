import Fcfn.Lib.Runs
import Fcfn.Net.FrameStream
import Fcfn.Store.Substitution

/-!
# Chunks of a stream

What a reader gets who feeds the chunks of a byte string to a frame stream and drains the stream
after each of them (`readAll`). The frames are those of the whole string, whatever the chunks
(`readAll_frames`). What ends the last drain is also that of the whole, unless the stream had failed
before the last chunk: a poisoned stream calls every failure corrupt (`readAll_outcome`). -/

namespace Fcfn.Net

open Words Streams

/-! ## Draining -/

namespace FrameStream

/-- Take at most `n` frames: the frames, what ended the drain, and the stream after it. -/
def drainWithin : ℕ → FrameStream → List Frame × DecodeOutcome × FrameStream
  | 0, s => ([], .needMore, s)
  | n + 1, s =>
    match s.next with
    | (.complete frame, s') =>
      let (frames, outcome, s'') := drainWithin n s'
      (frame :: frames, outcome, s'')
    | (outcome, s') => ([], outcome, s')

/-- Take frames until there is none. A frame takes up bytes, so there are fewer than that. -/
def drain (s : FrameStream) : List Frame × DecodeOutcome × FrameStream :=
  drainWithin (s.pending.length + 1) s

/-- The stream behind some frames. -/
def skip (s : FrameStream) (n : ℕ) : FrameStream := { s with offset := s.offset + n }

/-- The stream after a drain that found something. -/
def fail (s : FrameStream) : DecodeOutcome → FrameStream
  | .refused refusal => { s with poisoned := true, status := ⟨.protocolViolation, refusal.detail⟩ }
  | _ => s

end FrameStream

/-- A reader of a stream: the frames so far, and what ended the last drain. -/
structure Reader where
  stream : FrameStream := {}
  frames : List Frame := []
  outcome : DecodeOutcome := .needMore

namespace Reader

/-- Feed a chunk and drain the stream. -/
def receive (r : Reader) (chunk : Bytes) : Reader :=
  let (frames, outcome, stream) := (r.stream.feed chunk).2.drain
  { stream, frames := r.frames ++ frames, outcome }

/-- A chunk does not exceed the bound of the stream that it is fed to. -/
def Within (r : Reader) (chunk : Bytes) : Prop :=
  r.stream.poisoned = false → r.stream.pending.length + chunk.length ≤ kMaxBufferedBytes

/-- A chunk is not refused. -/
def Feeds (r : Reader) (chunk : Bytes) : Prop := (r.stream.feed chunk).1 = true

end Reader

/-- What a reader has who fed all the chunks. -/
def readAll (chunks : List Bytes) : Reader := Runs.exec Reader.receive {} chunks

/-- No chunk exceeds the bound of the stream. -/
def WithinBound (chunks : List Bytes) : Prop := Runs.Along Reader.receive Reader.Within {} chunks

/-- What is left of a byte string behind its frames. -/
def restOf (bytes : Bytes) : Bytes := rest decodeFrame Frame.size bytes

/-- What is found behind the frames of a byte string. -/
def endOf (bytes : Bytes) : DecodeOutcome := decodeFrame (restOf bytes)

/-- A byte string holds a refused frame. -/
def Fails (bytes : Bytes) : Prop := ∃ refusal, endOf bytes = .refused refusal

instance Fails.instDecidable (bytes : Bytes) : Decidable (Fails bytes) :=
  match h : endOf bytes with
  | .needMore => isFalse fun ⟨_, hrefused⟩ => by rw [h] at hrefused; exact absurd hrefused (by simp)
  | .complete _ => isFalse fun ⟨_, hrefused⟩ => by rw [h] at hrefused; exact absurd hrefused (by simp)
  | .refused refusal => isTrue ⟨refusal, h⟩

/-- The status of a stream that ends so. -/
def statusOf : DecodeOutcome → Status
  | .refused refusal => ⟨.protocolViolation, refusal.detail⟩
  | _ => ⟨.ok, ""⟩

/-- A failure, as a poisoned stream reports it. -/
def poisonedOutcome : DecodeOutcome → DecodeOutcome
  | .refused refusal => .refused ⟨.corrupt, refusal.detail⟩
  | outcome => outcome

/-! ## What a drain finds -/

namespace FrameStream

/-- A poisoned stream finds nothing. -/
theorem drain_poisoned {s : FrameStream} (h : s.poisoned = true) :
    s.drain = ([], .refused ⟨.corrupt, s.status.message⟩, s) := by
  unfold drain drainWithin next
  rw [if_pos h]

/-- What follows the frames of a sound stream is left, and the stream fails with it. -/
theorem drainWithin_eq {n : ℕ} {s : FrameStream} (hsound : s.poisoned = false)
    (hn : s.pending.length < n) :
    ∃ consumed, (s.skip consumed).pending = restOf s.pending ∧
      s.drainWithin n =
        (framesOf s.pending, endOf s.pending, (s.skip consumed).fail (endOf s.pending)) := by
  -- over the fuel: a frame has bytes, so one that is found leaves less than the fuel to drain
  induction n generalizing s with
  | zero => exact absurd hn (by omega)
  | succ n ih =>
    by_cases hfound : ∃ frame, decodeFrame s.pending = .complete frame
    · obtain ⟨frame, hframe⟩ := hfound
      have hpending : (s.skip frame.size).pending = s.pending.drop frame.size := by
        simp only [pending, skip, List.drop_drop]
      have hpos := decodeFrame_incremental.size_pos frame
      have hle := decodeFrame_incremental.size_le hframe
      have hlength : (s.skip frame.size).pending.length < n := by
        rw [hpending, List.length_drop]
        omega
      obtain ⟨consumed, hleft, hdrain⟩ := ih (s := s.skip frame.size) hsound hlength
      refine ⟨frame.size + consumed, ?_, ?_⟩
      · calc (s.skip (frame.size + consumed)).pending
            = ((s.skip frame.size).skip consumed).pending := by
              simp only [skip, Nat.add_assoc]
          _ = restOf (s.pending.drop frame.size) := by rw [hleft, hpending]
          _ = restOf s.pending := (rest_of_complete decodeFrame_incremental hframe).symm
      · have hends : endOf s.pending = endOf (s.pending.drop frame.size) := by
          unfold endOf restOf
          rw [rest_of_complete decodeFrame_incremental hframe]
        have hframes : framesOf s.pending = frame :: framesOf (s.pending.drop frame.size) :=
          items_of_complete decodeFrame_incremental hframe
        have hnext : s.next = (.complete frame, s.skip frame.size) := by
          unfold next
          rw [if_neg (by simp [hsound]), hframe]
          rfl
        rw [drainWithin, hnext]
        simp only
        rw [hdrain, hpending, hframes, hends]
        simp only [skip, Nat.add_assoc]
    · have hstop : ∀ frame, decodeFrame s.pending ≠ .complete frame := fun frame hframe =>
        hfound ⟨frame, hframe⟩
      have hrest : restOf s.pending = s.pending := rest_of_not_complete hstop
      refine ⟨0, by rw [hrest]; rfl, ?_⟩
      have hframes : framesOf s.pending = [] := items_of_not_complete hstop
      have hend : endOf s.pending = decodeFrame s.pending := by rw [endOf, hrest]
      rw [drainWithin, hframes, hend]
      unfold next
      rw [if_neg (by simp [hsound])]
      cases hdecode : decodeFrame s.pending with
      | complete frame => exact absurd hdecode (hstop frame)
      | needMore => rfl
      | refused refusal => rfl

end FrameStream

/-! ## What a reader has -/

/-- A reader of some bytes has their frames, and a stream that failed as they do. -/
structure HasRead (bytes : Bytes) (r : Reader) : Prop where
  frames : r.frames = framesOf bytes
  poisoned : r.stream.poisoned = true ↔ Fails bytes
  pending : r.stream.poisoned = false → r.stream.pending = restOf bytes
  status : r.stream.status = statusOf (endOf bytes)

/-- What is behind the frames of a byte string is no frame. -/
theorem endOf_ne_complete (bytes : Bytes) (frame : Frame) : endOf bytes ≠ .complete frame :=
  decode_rest_ne_complete decodeFrame_incremental bytes frame

/-- What is behind the frames of a byte string that does not fail asks for more. -/
theorem endOf_of_not_fails {bytes : Bytes} (h : ¬ Fails bytes) : endOf bytes = .needMore := by
  cases hend : endOf bytes with
  | needMore => rfl
  | complete frame => exact absurd hend (endOf_ne_complete bytes frame)
  | refused refusal => exact absurd ⟨refusal, hend⟩ h

/-- A byte string that failed has failed for good. -/
theorem append_of_fails {bytes : Bytes} (h : Fails bytes) (more : Bytes) :
    endOf (bytes ++ more) = endOf bytes ∧ framesOf (bytes ++ more) = framesOf bytes := by
  obtain ⟨refusal, hend⟩ := h
  obtain ⟨hstays, hitems⟩ :=
    decode_rest_append_of_refused decodeFrame_incremental hend more
  exact ⟨hstays.trans hend.symm, hitems⟩

/-- A reader has read nothing at first. -/
theorem hasRead_nil : HasRead [] {} where
  frames := rfl
  poisoned := by
    constructor
    · exact fun h => absurd h (by simp)
    · rintro ⟨refusal, hend⟩
      exact absurd hend (by simp [endOf, restOf, rest, restWithin, decodeFrame, kWireHeaderBytes])
  pending _ := rfl
  status := rfl

/-- What a chunk within the bound adds, and what ends the drain after it. -/
theorem HasRead.receive {bytes chunk : Bytes} {r : Reader} (h : HasRead bytes r)
    (hwithin : r.Within chunk) :
    HasRead (bytes ++ chunk) (r.receive chunk) ∧
      (r.receive chunk).outcome =
        if Fails bytes then poisonedOutcome (endOf (bytes ++ chunk)) else endOf (bytes ++ chunk) := by
  unfold Reader.receive
  -- a reader that has failed takes no more bytes, and its frames stay
  by_cases hfails : Fails bytes
  · obtain ⟨refusal, hend⟩ := hfails
    have hpoisoned := h.poisoned.mpr ⟨refusal, hend⟩
    obtain ⟨hstays, hframes⟩ := append_of_fails ⟨refusal, hend⟩ chunk
    have hfeed : (r.stream.feed chunk).2 = r.stream := by
      unfold FrameStream.feed
      rw [if_pos hpoisoned]
    have hstatus := h.status
    rw [hend] at hstatus
    rw [hfeed, FrameStream.drain_poisoned hpoisoned, if_pos ⟨refusal, hend⟩, hstays, hend, hstatus]
    refine ⟨?_, rfl⟩
    constructor
    · rw [hframes, ← h.frames]
      exact List.append_nil _
    · exact iff_of_true hpoisoned ⟨refusal, hstays.trans hend⟩
    · exact fun hsound => absurd hpoisoned (by rw [hsound]; simp)
    · rw [hstays]
      exact h.status
  · have hsound : r.stream.poisoned = false := by
      rw [← Bool.not_eq_true]
      exact fun hpoisoned => hfails (h.poisoned.mp hpoisoned)
    -- what is kept of a sound stream and the chunk fit into the buffer, so the chunk is fed
    have hfed := FrameStream.feed_within hsound (hwithin hsound)
    obtain ⟨s, hfeed⟩ : ∃ s, r.stream.feed chunk = (true, s) := ⟨_, Prod.ext hfed rfl⟩
    obtain ⟨hpending, hstill⟩ := FrameStream.feed_ok hfeed
    have hstatus : s.status = ⟨.ok, ""⟩ := by
      have hbefore := h.status
      rw [endOf_of_not_fails hfails] at hbefore
      rw [FrameStream.feed_status hfeed, hbefore]
      rfl
    rw [h.pending hsound] at hpending
    have hrest : restOf s.pending = restOf (bytes ++ chunk) := by
      rw [hpending]
      exact (rest_append decodeFrame_incremental bytes chunk).symm
    have hend : endOf s.pending = endOf (bytes ++ chunk) := by rw [endOf, hrest, endOf]
    obtain ⟨consumed, hleft, hdrain⟩ :=
      FrameStream.drainWithin_eq hstill (Nat.lt_succ_self s.pending.length)
    rw [hfeed, FrameStream.drain, hdrain, if_neg hfails, hend]
    refine ⟨?_, rfl⟩
    constructor
    · calc r.frames ++ framesOf s.pending
          = framesOf bytes ++ framesOf (restOf bytes ++ chunk) := by rw [h.frames, hpending]
        _ = framesOf (bytes ++ chunk) :=
          (items_append decodeFrame_incremental bytes chunk).symm
    · unfold Fails
      cases endOf (bytes ++ chunk) with
      | needMore => exact iff_of_false (Bool.eq_false_iff.mp hstill) (by simp)
      | complete frame => exact iff_of_false (Bool.eq_false_iff.mp hstill) (by simp)
      | refused refusal => simp [FrameStream.fail]
    · intro _
      rw [← hrest, ← hleft]
      cases endOf (bytes ++ chunk) <;> rfl
    · cases endOf (bytes ++ chunk) with
      | needMore => exact hstatus
      | complete frame => exact hstatus
      | refused refusal => rfl

/-- What a reader has who fed all the chunks, and what ended the last drain. -/
theorem readAll_eq {chunks : List Bytes} (h : WithinBound chunks) :
    HasRead chunks.flatten (readAll chunks) ∧
      (readAll chunks).outcome =
        if Fails chunks.dropLast.flatten then poisonedOutcome (endOf chunks.flatten)
        else endOf chunks.flatten := by
  induction chunks using List.reverseRecOn with
  | nil => exact ⟨hasRead_nil, rfl⟩
  | append_singleton chunks chunk ih =>
    have hread : readAll (chunks ++ [chunk]) = (readAll chunks).receive chunk :=
      Runs.exec_append ..
    obtain ⟨hbefore, -⟩ := ih h.append_left
    have hstep := hbefore.receive h.append_right.1
    rw [hread, List.dropLast_concat, List.flatten_append, List.flatten_singleton]
    exact hstep

/-! ## Chunking invariance -/

/-- Two ways of splitting bytes learn of a failure that is not called corrupt in the same way: both
from their last chunk, or both before it. -/
def LearnAlike (chunks chunks' : List Bytes) : Prop :=
  ∀ refusal, endOf chunks.flatten = .refused refusal → refusal.status ≠ .corrupt →
    (Fails chunks.dropLast.flatten ↔ Fails chunks'.dropLast.flatten)

/-- A failure is reported as it is by a poisoned stream exactly if it is called corrupt. -/
theorem poisonedOutcome_eq {refusal : Refusal} :
    poisonedOutcome (.refused refusal) = .refused refusal ↔ refusal.status = .corrupt := by
  obtain ⟨status, detail⟩ := refusal
  simp [poisonedOutcome, eq_comm]

/-- The ends of two readings of the same bytes. -/
theorem outcomes_eq_iff {chunks chunks' : List Bytes} (h : WithinBound chunks)
    (h' : WithinBound chunks') (hbytes : chunks.flatten = chunks'.flatten) :
    (readAll chunks).outcome = (readAll chunks').outcome ↔ LearnAlike chunks chunks' := by
  have houtcome := (readAll_eq h).2
  have houtcome' := (readAll_eq h').2
  rw [← hbytes] at houtcome'
  rw [houtcome, houtcome']
  unfold LearnAlike
  cases hend : endOf chunks.flatten with
  | complete frame => exact absurd hend (endOf_ne_complete _ frame)
  | needMore => simp [poisonedOutcome]
  | refused refusal =>
    have hsame := @poisonedOutcome_eq refusal
    by_cases hbefore : Fails chunks.dropLast.flatten <;>
      by_cases hbefore' : Fails chunks'.dropLast.flatten
    · simp [hbefore, hbefore']
    · rw [if_pos hbefore, if_neg hbefore', hsame]
      simp [hbefore, hbefore']
    · rw [if_neg hbefore, if_pos hbefore', eq_comm, hsame]
      simp [hbefore, hbefore']
    · simp [hbefore, hbefore']

/-- The frames of what was encoded, and of what follows it. -/
theorem framesOf_encodeAll {frames : List Frame}
    (h : ∀ frame ∈ frames, frame.payload.length ≤ kMaxFramePayloadBytes) (more : Bytes) :
    framesOf (frames.flatMap encodeFrame ++ more) = frames ++ framesOf more := by
  induction frames with
  | nil => rfl
  | cons frame frames ih =>
    rw [List.flatMap_cons, List.append_assoc, framesOf_encode (h frame (by simp)),
      ih fun other hother => h other (by simp [hother])]
    rfl

/-- Every frame that is found is within the bound. -/
theorem framesOf_within (bytes : Bytes) :
    ∀ frame ∈ framesOf bytes, frame.payload.length ≤ kMaxFramePayloadBytes := by
  induction bytes using items_induction decodeFrame_incremental with
  | stop bytes hstop =>
    rw [framesOf, items_of_not_complete hstop]
    simp
  | more bytes frame hframe ih =>
    rw [framesOf, items_of_complete decodeFrame_incremental hframe]
    exact List.forall_mem_cons.mpr ⟨(decodeFrame_complete hframe).2.2.2, ih⟩

/-! ## A substituted byte -/

/-- A payload whose length does not fit in the header's field, and that is taken for a shorter one
with its checksum. -/
def Wraps (payload payload' : Bytes) : Prop :=
  payload.length % 2 ^ 32 ≤ kMaxFramePayloadBytes ∧ 2 ^ 32 ≤ payload.length ∧
    crc32c (payload'.take (payload.length % 2 ^ 32)) = crc32c payload

/-- What a frame's header requires of its bytes, and what its payload does. -/
theorem decodeFrame_checksums {bytes : Bytes} {frame : Frame}
    (h : decodeFrame bytes = .complete frame) :
    crc32c (bytes.take 40) = getU32 bytes 40 ∧
      crc32c ((bytes.drop kWireHeaderBytes).take (getU32 bytes 8).toNat) = getU32 bytes 36 ∧
        (getU32 bytes 8).toNat ≤ kMaxFramePayloadBytes := by
  -- a frame is complete only past every test of the source
  unfold decodeFrame at h
  split at h
  · exact absurd h (by simp)
  split at h
  · exact absurd h (by simp)
  split at h
  · exact absurd h (by simp)
  split at h
  · exact absurd h (by simp)
  dsimp only at h
  split at h
  · exact absurd h (by simp)
  rename_i hbound
  split at h
  · exact absurd h (by simp)
  rename_i hheader
  split at h
  · exact absurd h (by simp)
  split at h
  · exact absurd h (by simp)
  rename_i hpayload
  exact ⟨not_not.mp hheader, not_not.mp hpayload, by omega⟩

/-- The bytes of a frame and what follows it, with a byte of the frame substituted. -/
theorem encodeFrame_set {frame : Frame} {i : ℕ} {b : UInt8} (hi : i < frame.size) (more : Bytes) :
    (encodeFrame frame).set i b ++ more = (encodeFrame frame ++ more).set i b := by
  rw [List.set_append_left _ _ (by rwa [length_encodeFrame])]

/-- A frame with another byte in its header is not found. -/
theorem decodeFrame_header_set {frame : Frame} {i : ℕ} {a b : UInt8}
    (hi : (encodeFrame frame)[i]? = some a) (hne : a ≠ b) (hheader : i < kWireHeaderBytes)
    (more : Bytes) (found : Frame) :
    decodeFrame ((encodeFrame frame).set i b ++ more) ≠ .complete found := by
  intro hfound
  have hfields := length_encodeHeaderFields frame
  have hsize : i < frame.size := by
    unfold Frame.size
    omega
  have hbytes : encodeFrame frame ++ more = encodeHeaderFields frame ++
      (le32 (crc32c (encodeHeaderFields frame)) ++ (frame.payload ++ more)) := by
    simp only [encodeFrame, List.append_assoc]
  have hi' : (encodeFrame frame ++ more)[i]? = some a := by
    rw [List.getElem?_append_left (by rwa [length_encodeFrame])]
    exact hi
  have hcrc := getU32_append 40 (encodeHeaderFields frame) (crc32c (encodeHeaderFields frame))
    (frame.payload ++ more) hfields
  have hchecked := (decodeFrame_checksums hfound).1
  rw [encodeFrame_set hsize, List.take_set, hbytes, List.take_left' hfields, ← hbytes] at hchecked
  rw [← hbytes] at hcrc
  have hwidth : i < 40 + 4 := hheader
  rcases Nat.lt_or_ge i 40 with hcovered | hcovered
  · -- the checksum covers the byte
    rw [getU32_set_of_not_mem (Or.inl hcovered), hcrc] at hchecked
    rw [hbytes, List.getElem?_append_left (by rwa [hfields])] at hi'
    exact crc32c_set_ne hi' hne hchecked
  · -- the byte is one of the checksum
    rw [List.set_eq_of_length_le (by rw [hfields]; exact hcovered)] at hchecked
    exact getU32_set_ne hcovered hwidth hi' hne (hchecked.symm.trans hcrc.symm)

/-- A frame with another byte in its payload is not found, unless its length wraps. -/
theorem decodeFrame_payload_set {frame : Frame} {i : ℕ} {a b : UInt8}
    (hi : frame.payload[i]? = some a) (hne : a ≠ b) (more : Bytes) :
    (∃ found, decodeFrame ((encodeFrame frame).set (kWireHeaderBytes + i) b ++ more) =
      .complete found) ↔ Wraps frame.payload (frame.payload.set i b) := by
  have hheader : (encodeHeaderFields frame ++
      le32 (crc32c (encodeHeaderFields frame))).length = kWireHeaderBytes := by
    simp [kWireHeaderBytes]
  have hbytes : (encodeFrame frame).set (kWireHeaderBytes + i) b ++ more =
      encodeHeaderFields frame ++ (le32 (crc32c (encodeHeaderFields frame)) ++
        (frame.payload.set i b ++ more)) := by
    rw [encodeFrame, ← List.append_assoc, List.set_append_right _ _ (by omega), hheader,
      Nat.add_sub_cancel_left]
    simp only [List.append_assoc]
  have hmod : frame.payload.length % 2 ^ 32 ≤ frame.payload.length := Nat.mod_le _ _
  have htake : (frame.payload.set i b ++ more).take (frame.payload.length % 2 ^ 32) =
      (frame.payload.set i b).take (frame.payload.length % 2 ^ 32) :=
    List.take_append_of_le_length (by rwa [List.length_set])
  rw [hbytes, decodeFrame_body, htake,
    if_neg (show ¬ (frame.payload.set i b ++ more).length < frame.payload.length % 2 ^ 32 by
      rw [List.length_append, List.length_set]; omega)]
  by_cases hbound : frame.payload.length % 2 ^ 32 > kMaxFramePayloadBytes
  · rw [if_pos hbound]
    exact iff_of_false (by simp) fun hwraps => absurd hwraps.1 (by omega)
  rw [if_neg hbound]
  by_cases hcrc : crc32c ((frame.payload.set i b).take (frame.payload.length % 2 ^ 32)) =
      crc32c frame.payload
  · rw [if_neg (not_not.mpr hcrc)]
    refine iff_of_true ⟨_, rfl⟩ ⟨by omega, ?_, hcrc⟩
    -- a payload whose length fits is checked whole, and the checksum detects the byte
    by_contra hfits
    rw [Nat.mod_eq_of_lt (by omega), List.take_of_length_le (by rw [List.length_set])] at hcrc
    exact crc32c_set_ne hi hne hcrc
  · rw [if_pos hcrc]
    exact iff_of_false (by simp) fun hwraps => hcrc hwraps.2.2

/-- A byte of a frame is substituted where the decoder detects it. -/
def Detected (frame : Frame) (i : ℕ) (b : UInt8) : Prop :=
  kWireHeaderBytes ≤ i →
    ¬ Wraps frame.payload (frame.payload.set (i - kWireHeaderBytes) b)

/-- A frame with another byte is not found where it is detected. -/
theorem decodeFrame_set {frame : Frame} {i : ℕ} {a b : UInt8}
    (hi : (encodeFrame frame)[i]? = some a) (hne : a ≠ b) (more : Bytes) :
    (∀ found, decodeFrame ((encodeFrame frame).set i b ++ more) ≠ .complete found) ↔
      Detected frame i b := by
  rcases Nat.lt_or_ge i kWireHeaderBytes with hheader | hpayload
  · exact iff_of_true (decodeFrame_header_set hi hne hheader more) fun habsurd =>
      absurd habsurd (by omega)
  · obtain ⟨j, rfl⟩ : ∃ j, i = kWireHeaderBytes + j := ⟨i - kWireHeaderBytes, by omega⟩
    have hheader : (encodeHeaderFields frame ++
        le32 (crc32c (encodeHeaderFields frame))).length = kWireHeaderBytes := by
      simp [kWireHeaderBytes]
    have hj : frame.payload[j]? = some a := by
      rw [encodeFrame, ← List.append_assoc, List.getElem?_append_right (by omega), hheader,
        Nat.add_sub_cancel_left] at hi
      exact hi
    unfold Detected
    rw [Nat.add_sub_cancel_left, ← decodeFrame_payload_set hj hne more]
    simp

/-- The frames of what was encoded, when a byte of one frame is substituted: those before it, where
they fit and the byte is detected. -/
theorem framesOf_set {before : List Frame} {frame : Frame} {i : ℕ} {a b : UInt8}
    (hi : (encodeFrame frame)[i]? = some a) (hne : a ≠ b) (more : Bytes) :
    framesOf (before.flatMap encodeFrame ++ ((encodeFrame frame).set i b ++ more)) = before ↔
      (∀ other ∈ before, other.payload.length ≤ kMaxFramePayloadBytes) ∧ Detected frame i b := by
  rw [← decodeFrame_set hi hne more]
  constructor
  · intro hframes
    have hwithin : ∀ other ∈ before, other.payload.length ≤ kMaxFramePayloadBytes := by
      rw [← hframes]
      exact framesOf_within _
    refine ⟨hwithin, fun found hfound => ?_⟩
    rw [framesOf_encodeAll hwithin] at hframes
    have hnone := List.append_right_eq_self.mp hframes
    rw [framesOf, items_of_complete decodeFrame_incremental hfound] at hnone
    exact absurd hnone (by simp)
  · rintro ⟨hwithin, hstop⟩
    rw [framesOf_encodeAll hwithin, framesOf, items_of_not_complete hstop, List.append_nil]

/-- The frames and the end of a stream do not depend on the chunks it arrives in, exactly where both
ways of splitting learn alike of a failure; frames that were encoded are found, exactly where they
are within the bound; and those before a substituted byte, exactly where they are and the byte is
detected. -/
theorem chunking_invariance {chunks : List Bytes} (h : WithinBound chunks) :
    (∀ chunks' : List Bytes, WithinBound chunks' → chunks.flatten = chunks'.flatten →
      ((readAll chunks).frames = (readAll chunks').frames ∧
        (readAll chunks).outcome = (readAll chunks').outcome ∧
        (readAll chunks).stream.status = (readAll chunks').stream.status ↔
          LearnAlike chunks chunks')) ∧
    (∀ frames : List Frame, chunks.flatten = frames.flatMap encodeFrame →
      ((readAll chunks).frames = frames ↔
        ∀ frame ∈ frames, frame.payload.length ≤ kMaxFramePayloadBytes)) ∧
    (∀ (before after : List Frame) (frame : Frame) (i : ℕ) (a b : UInt8),
      (encodeFrame frame)[i]? = some a → a ≠ b →
        chunks.flatten = before.flatMap encodeFrame ++
          ((encodeFrame frame).set i b ++ after.flatMap encodeFrame) →
            ((readAll chunks).frames = before ↔
              (∀ other ∈ before, other.payload.length ≤ kMaxFramePayloadBytes) ∧
                Detected frame i b)) := by
  have hread := (readAll_eq h).1
  refine ⟨fun chunks' h' hbytes => ?_, fun frames hbytes => ?_,
    fun before after frame i a b hi hne hbytes => ?_⟩
  · have hread' := (readAll_eq h').1
    have hframes : (readAll chunks).frames = (readAll chunks').frames := by
      rw [hread.frames, hread'.frames, hbytes]
    have hstatus : (readAll chunks).stream.status = (readAll chunks').stream.status := by
      rw [hread.status, hread'.status, hbytes]
    -- frames and status are those of the bytes, so only what the two learned can differ
    rw [← outcomes_eq_iff h h' hbytes]
    exact ⟨fun hall => hall.2.1, fun houtcome => ⟨hframes, houtcome, hstatus⟩⟩
  · rw [hread.frames, hbytes]
    constructor
    · intro hframes
      rw [← hframes]
      exact framesOf_within _
    · intro hwithin
      have hall := framesOf_encodeAll hwithin []
      rwa [List.append_nil, show framesOf [] = [] from rfl, List.append_nil] at hall
  · rw [hread.frames, hbytes]
    exact framesOf_set hi hne _

/-- A header of the next version of the format, and a byte more. -/
def nextVersion : Bytes := le32 kWireMagic ++ (le16 2 ++ List.replicate 39 0)

/-- A version that is not supported is reported so when the bytes come in one piece, and called
corrupt when the last byte comes alone. -/
theorem split_changes_end :
    [nextVersion].flatten = [nextVersion.take 44, nextVersion.drop 44].flatten ∧
      WithinBound [nextVersion] ∧ WithinBound [nextVersion.take 44, nextVersion.drop 44] ∧
      (readAll [nextVersion]).outcome ≠
        (readAll [nextVersion.take 44, nextVersion.drop 44]).outcome := by
  refine ⟨by decide, ⟨fun _ => by decide, trivial⟩, ⟨fun _ => by decide, fun _ => by decide, trivial⟩,
    by decide⟩

theorem chunking_invariance_empty :
    (readAll [encodeFrame {}]).frames = [{}] ↔
      ∀ frame ∈ ([{}] : List Frame), frame.payload.length ≤ kMaxFramePayloadBytes :=
  (chunking_invariance (show WithinBound [encodeFrame {}] from ⟨fun _ => by decide, trivial⟩)).2.1 [{}]
    (by simp)

/-! ## Pipelined frames -/

/-- The bytes that a session reads at once. -/
def kReadChunkBytes : ℕ := 4096

/-- A read of `n` bytes at a position in some frames: if it starts inside a frame, it does not run
past the end of the frame by more than the payload leaves of the bound. -/
def Fits : List Frame → ℕ → ℕ → Prop
  | [], _, _ => True
  | frame :: frames, position, n =>
    if frame.size ≤ position then Fits frames (position - frame.size) n
    else position = 0 ∨
      position + n ≤ frame.size + (kMaxFramePayloadBytes - frame.payload.length)

/-- A read that starts inside the first frame. -/
theorem fits_inside {frame : Frame} {frames : List Frame} {position n : ℕ}
    (h : ¬ frame.size ≤ position) :
    Fits (frame :: frames) position n ↔ position = 0 ∨
      position + n ≤ frame.size + (kMaxFramePayloadBytes - frame.payload.length) := by
  rw [Fits, if_neg h]

/-- Every chunk fits, where it is read. -/
def AllFit (frames : List Frame) (chunks : List Bytes) : Prop :=
  ∀ before chunk after, chunks = before ++ chunk :: after →
    Fits frames before.flatten.length chunk.length

/-- Part of a frame asks for more. -/
theorem decodeFrame_prefix {frame : Frame} {bytes : Bytes}
    (h : frame.payload.length ≤ kMaxFramePayloadBytes) (hbytes : bytes <+: encodeFrame frame)
    (hlength : bytes.length < frame.size) : decodeFrame bytes = .needMore := by
  obtain ⟨more, hmore⟩ := hbytes
  have hwhole := decodeFrame_encode h []
  rw [List.append_nil, ← hmore] at hwhole
  cases hdecode : decodeFrame bytes with
  | needMore => rfl
  | refused refusal =>
    rw [decodeFrame_incremental.refused hdecode more] at hwhole
    exact absurd hwhole (by simp)
  | complete found =>
    rw [decodeFrame_incremental.complete hdecode more] at hwhole
    obtain rfl := Found.complete.inj hwhole
    have hle := decodeFrame_incremental.size_le hdecode
    omega

/-- What is left of the first bytes of some frames, and whether a chunk fits after them. -/
theorem restOf_prefix {frames : List Frame} {bytes : Bytes} {n : ℕ}
    (h : ∀ frame ∈ frames, frame.payload.length ≤ kMaxFramePayloadBytes)
    (hbytes : bytes <+: frames.flatMap encodeFrame) (hn : n ≤ kReadChunkBytes) :
    ¬ Fails bytes ∧
      (Fits frames bytes.length n ↔ (restOf bytes).length + n ≤ kMaxBufferedBytes) := by
  have hread : kReadChunkBytes ≤ kMaxBufferedBytes := by decide
  -- over the frames: one that is whole is drained, so what is left is part of the next
  induction frames generalizing bytes with
  | nil =>
    obtain rfl := List.prefix_nil.mp hbytes
    refine ⟨by decide, iff_of_true trivial ?_⟩
    show 0 + n ≤ kMaxBufferedBytes
    omega
  | cons frame frames ih =>
    have hfirst := h frame (by simp)
    rw [List.flatMap_cons] at hbytes
    by_cases hsize : frame.size ≤ bytes.length
    · -- the whole frame is there, and what follows it decides
      obtain ⟨later, rfl⟩ : encodeFrame frame <+: bytes :=
        List.prefix_of_prefix_length_le (List.prefix_append _ _) hbytes
          (by rwa [length_encodeFrame])
      have hfound := decodeFrame_encode hfirst later
      have hdrop : (encodeFrame frame ++ later).drop frame.size = later :=
        List.drop_left' (length_encodeFrame frame)
      have hrest : restOf (encodeFrame frame ++ later) = restOf later := by
        unfold restOf
        rw [rest_of_complete decodeFrame_incremental hfound, hdrop]
      have hlength : (encodeFrame frame ++ later).length - frame.size = later.length := by
        rw [List.length_append, length_encodeFrame, Nat.add_sub_cancel_left]
      rw [Fits, if_pos hsize, hlength, Fails, endOf, hrest]
      exact ih (fun other hother => h other (by simp [hother]))
        ((List.prefix_append_right_inj _).mp hbytes)
    · have hpart : bytes <+: encodeFrame frame :=
        List.prefix_of_prefix_length_le hbytes (List.prefix_append _ _)
          (by rw [length_encodeFrame]; omega)
      have hmore := decodeFrame_prefix hfirst hpart (by omega)
      have hrest : restOf bytes = bytes := rest_of_not_complete (by simp [hmore])
      rw [fits_inside hsize, Fails, endOf, hrest, hmore]
      refine ⟨by simp, ?_⟩
      have hbound : frame.size + (kMaxFramePayloadBytes - frame.payload.length) =
          kMaxBufferedBytes := by
        unfold Frame.size kMaxBufferedBytes
        omega
      rw [hbound]
      omega

/-- A chunk is fed to a sound stream exactly if it is within the bound. -/
theorem HasRead.feeds_iff {bytes chunk : Bytes} {r : Reader} (h : HasRead bytes r)
    (hfails : ¬ Fails bytes) :
    r.Feeds chunk ↔ (restOf bytes).length + chunk.length ≤ kMaxBufferedBytes := by
  have hsound : r.stream.poisoned = false := by
    rw [← Bool.not_eq_true]
    exact fun hpoisoned => hfails (h.poisoned.mp hpoisoned)
  rw [← h.pending hsound]
  exact FrameStream.feed_iff hsound

/-- One more chunk fits. -/
theorem allFit_concat {frames : List Frame} {chunks : List Bytes} {chunk : Bytes} :
    AllFit frames (chunks ++ [chunk]) ↔
      AllFit frames chunks ∧ Fits frames chunks.flatten.length chunk.length := by
  constructor
  · intro h
    refine ⟨fun before first after hsplit => ?_, h chunks chunk [] rfl⟩
    exact h before first (after ++ [chunk]) (by rw [hsplit]; simp)
  · rintro ⟨hall, hlast⟩ before first after hsplit
    rcases List.eq_nil_or_concat after with rfl | ⟨after, last, rfl⟩
    · obtain ⟨rfl, hchunk⟩ := List.append_inj' hsplit rfl
      obtain rfl := List.singleton_inj.mp hchunk
      exact hlast
    · have hsplit' : chunks ++ [chunk] = (before ++ first :: after) ++ [last] := by
        rw [hsplit]
        simp
      obtain ⟨rfl, -⟩ := List.append_inj' hsplit' rfl
      exact hall before first after rfl

/-- The chunks of the first bytes of some frames are fed exactly if they fit. -/
theorem along_feeds_iff {frames : List Frame} {chunks : List Bytes}
    (h : ∀ frame ∈ frames, frame.payload.length ≤ kMaxFramePayloadBytes)
    (hchunks : ∀ chunk ∈ chunks, chunk.length ≤ kReadChunkBytes)
    (hbytes : chunks.flatten <+: frames.flatMap encodeFrame) :
    Runs.Along Reader.receive Reader.Feeds {} chunks ↔ AllFit frames chunks := by
  induction chunks using List.reverseRecOn with
  | nil => exact iff_of_true trivial fun before chunk after hsplit => absurd hsplit (by simp)
  | append_singleton chunks chunk ih =>
    rw [List.flatten_append, List.flatten_singleton] at hbytes
    have hbefore : chunks.flatten <+: frames.flatMap encodeFrame :=
      (List.prefix_append _ _).trans hbytes
    have ih := ih (fun other hother => hchunks other (by simp [hother])) hbefore
    obtain ⟨hfails, hfits⟩ := restOf_prefix h hbefore (hchunks chunk (by simp))
    rw [allFit_concat, ← ih, hfits, Runs.Along.concat_iff]
    refine and_congr_right fun hfed => ?_
    -- Chunks that were fed are within the bound.
    have hwithin : WithinBound chunks := hfed.mono fun r other hother hsound =>
      (FrameStream.feed_iff hsound).mp hother
    exact (readAll_eq hwithin).1.feeds_iff hfails

/-- Frames within the bound that arrive back to back, in chunks no longer than a session's reads,
are never refused, exactly where no chunk that starts inside a frame runs past its end by more than
the frame's payload leaves of the bound. -/
theorem pipelining (frames : List Frame) (chunks : List Bytes)
    (hframes : ∀ frame ∈ frames, frame.payload.length ≤ kMaxFramePayloadBytes)
    (hchunks : ∀ chunk ∈ chunks, chunk.length ≤ kReadChunkBytes)
    (hbytes : chunks.flatten = frames.flatMap encodeFrame) :
    Runs.Along Reader.receive Reader.Feeds {} chunks ↔ AllFit frames chunks :=
  along_feeds_iff hframes hchunks ⟨[], (List.append_nil _).trans hbytes⟩

theorem pipelining_empty :
    Runs.Along Reader.receive Reader.Feeds {} [encodeFrame {}] ↔ AllFit [{}] [encodeFrame {}] :=
  pipelining [{}] [encodeFrame {}] (by decide) (by decide) (by simp)

/-- The longest frame. -/
def longestFrame : Frame := { payload := List.replicate kMaxFramePayloadBytes 0 }

/-- The longest frame with another behind it, in reads of which the last starts with the last byte
of the longest frame. -/
def overrunningReads : List Bytes :=
  [encodeHeaderFields longestFrame ++ le32 (crc32c (encodeHeaderFields longestFrame))] ++
    List.replicate 1023 (List.replicate 4096 0) ++ [List.replicate 4095 0] ++
      [0 :: encodeFrame {}]

/-- The longest frame is refused when its last byte is read together with the frame behind it. -/
theorem longest_frame_refused :
    (∀ frame ∈ [longestFrame, {}], frame.payload.length ≤ kMaxFramePayloadBytes) ∧
      (∀ chunk ∈ overrunningReads, chunk.length ≤ kReadChunkBytes) ∧
      overrunningReads.flatten = [longestFrame, {}].flatMap encodeFrame ∧
      ¬ Runs.Along Reader.receive Reader.Feeds {} overrunningReads := by
  have hpayload : longestFrame.payload.length = kMaxFramePayloadBytes := List.length_replicate
  have hframes : ∀ frame ∈ [longestFrame, {}], frame.payload.length ≤ kMaxFramePayloadBytes := by
    simp [hpayload]
  have hchunks : ∀ chunk ∈ overrunningReads, chunk.length ≤ kReadChunkBytes := by
    have hlast : (0 :: encodeFrame {}).length ≤ kReadChunkBytes := by
      rw [List.length_cons, length_encodeFrame]
      decide
    intro chunk hchunk
    simp only [overrunningReads, List.mem_append, List.mem_singleton, List.mem_replicate] at hchunk
    rcases hchunk with ((rfl | ⟨-, rfl⟩) | rfl) | rfl
    · simp [kReadChunkBytes]
    · rw [List.length_replicate]
      decide
    · rw [List.length_replicate]
      decide
    · exact hlast
  have hzeros : List.replicate kMaxFramePayloadBytes (0 : UInt8) =
      List.replicate (1023 * 4096) 0 ++ (List.replicate 4095 0 ++ [0]) := by
    rw [← List.replicate_succ', ← List.replicate_add]
    rfl
  have hbytes : overrunningReads.flatten = [longestFrame, {}].flatMap encodeFrame := by
    have hlongest : encodeFrame longestFrame = encodeHeaderFields longestFrame ++
        (le32 (crc32c (encodeHeaderFields longestFrame)) ++
          (List.replicate (1023 * 4096) 0 ++ (List.replicate 4095 0 ++ [0]))) := by
      rw [encodeFrame, ← hzeros]
      rfl
    simp only [overrunningReads, List.flatten_append, List.flatten_cons, List.flatten_nil,
      List.flatten_replicate_replicate, List.flatMap_cons, List.flatMap_nil, hlongest,
      List.append_assoc, List.append_nil, List.cons_append, List.nil_append]
  have hprefix : overrunningReads.flatten <+: [longestFrame, {}].flatMap encodeFrame :=
    ⟨[], (List.append_nil _).trans hbytes⟩
  refine ⟨hframes, hchunks, hbytes, ?_⟩
  -- The last read starts at the last byte of the longest frame.
  have hposition : ([encodeHeaderFields longestFrame ++
      le32 (crc32c (encodeHeaderFields longestFrame))] ++ List.replicate 1023 (List.replicate 4096 0) ++
        [List.replicate 4095 0]).flatten.length = 4194347 := by
    simp only [List.flatten_append, List.flatten_cons, List.flatten_nil,
      List.flatten_replicate_replicate, List.length_append, List.length_replicate,
      length_encodeHeaderFields, length_le32, List.length_nil]
  have hsize : longestFrame.size = 4194348 := by
    rw [Frame.size, hpayload]
    rfl
  have hlast : (0 :: encodeFrame {}).length = 45 := by
    rw [List.length_cons, length_encodeFrame]
    rfl
  have hover : ¬ Fits [longestFrame, {}] 4194347 45 := by
    rw [fits_inside (by rw [hsize]; omega), hsize, hpayload]
    omega
  rw [along_feeds_iff hframes hchunks hprefix, overrunningReads, allFit_concat, hposition, hlast]
  exact not_and_of_not_right _ hover

end Fcfn.Net
