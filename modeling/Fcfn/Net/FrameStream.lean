import Fcfn.Net.Frame

/-!
# The frame stream

The bytes received so far, of which some were already consumed as frames. Bytes are fed as they
arrive, and frames are taken from the front; the first failure poisons the stream. What counts is
the part that is not consumed yet (`pending`): feeding extends it, and a frame is taken off its
front. -/

namespace Fcfn.Net

open Words Streams

structure FrameStream where
  buffer : Bytes := []
  /-- How much of the buffer was consumed. -/
  offset : ℕ := 0
  poisoned : Bool := false
  status : Status := ⟨.ok, ""⟩
  deriving DecidableEq, Repr

namespace FrameStream

/-- The bytes that are not consumed yet. -/
def pending (s : FrameStream) : Bytes := s.buffer.drop s.offset

/-- Feed bytes. The result is false when the stream is poisoned or its bound would be exceeded. -/
def feed (s : FrameStream) (bytes : Bytes) : Bool × FrameStream :=
  if s.poisoned then (false, s)
  else
    let s := { s with buffer := s.buffer.drop s.offset, offset := 0 }
    if s.buffer.length + bytes.length > kMaxBufferedBytes then
      (false, { s with
        poisoned := true
        status := ⟨.limitExceeded, "frame stream buffer bound exceeded"⟩ })
    else (true, { s with buffer := s.buffer ++ bytes })

/-- Take the next frame. -/
def next (s : FrameStream) : DecodeOutcome × FrameStream :=
  if s.poisoned then (.refused ⟨.corrupt, s.status.message⟩, s)
  else
    match decodeFrame s.pending with
    | .complete frame => (.complete frame, { s with offset := s.offset + frame.size })
    | .needMore => (.needMore, s)
    | .refused refusal =>
      (.refused refusal, { s with
        poisoned := true
        status := ⟨.protocolViolation, refusal.detail⟩ })

/-- Bytes that are fed go after those that are pending. -/
theorem feed_ok {s s' : FrameStream} {bytes : Bytes} (h : s.feed bytes = (true, s')) :
    s'.pending = s.pending ++ bytes ∧ s'.poisoned = false := by
  unfold feed at h
  split at h
  · exact absurd h (by simp)
  rename_i hsound
  dsimp only at h
  split at h
  · exact absurd h (by simp)
  · obtain rfl := (Prod.mk.inj h).2
    exact ⟨rfl, by simpa using hsound⟩

/-- Feeding bytes does not touch the status. -/
theorem feed_status {s s' : FrameStream} {bytes : Bytes} (h : s.feed bytes = (true, s')) :
    s'.status = s.status := by
  unfold feed at h
  split at h
  · exact absurd h (by simp)
  dsimp only at h
  split at h
  · exact absurd h (by simp)
  · obtain rfl := (Prod.mk.inj h).2
    rfl

/-- Bytes that are refused would exceed the bound, or the stream is poisoned. -/
theorem feed_false {s s' : FrameStream} {bytes : Bytes} (h : s.feed bytes = (false, s')) :
    s.poisoned = true ∨ s.pending.length + bytes.length > kMaxBufferedBytes := by
  unfold feed at h
  split at h
  · rename_i hpoisoned
    exact Or.inl hpoisoned
  · dsimp only at h
    split at h
    · rename_i hbound
      exact Or.inr hbound
    · exact absurd h (by simp)

/-- A stream that refuses bytes is poisoned. -/
theorem feed_poisoned {s s' : FrameStream} {bytes : Bytes} (h : s.feed bytes = (false, s')) :
    s'.poisoned = true := by
  unfold feed at h
  split at h
  · rename_i hpoisoned
    rw [← (Prod.mk.inj h).2, hpoisoned]
  · dsimp only at h
    split at h
    · rw [← (Prod.mk.inj h).2]
    · exact absurd h (by simp)

/-- A stream whose next frame is refused is poisoned. -/
theorem next_poisoned {s s' : FrameStream} {refusal : Refusal} (h : s.next = (.refused refusal, s')) :
    s'.poisoned = true := by
  unfold next at h
  split at h
  · rename_i hpoisoned
    rw [← (Prod.mk.inj h).2, hpoisoned]
  · split at h
    · exact absurd h (by simp)
    · exact absurd h (by simp)
    · rw [← (Prod.mk.inj h).2]

/-- The stream asks for more when its pending bytes hold no whole frame yet. -/
theorem next_needMore {s s' : FrameStream} (h : s.next = (.needMore, s')) :
    s' = s ∧ decodeFrame s.pending = .needMore := by
  unfold next at h
  split at h
  · exact absurd h (by simp)
  split at h
  · exact absurd h (by simp)
  · rename_i hdecode
    exact ⟨(Prod.mk.inj h).2.symm, hdecode⟩
  · exact absurd h (by simp)

/-- A frame is taken off the front of the pending bytes. -/
theorem next_complete {s s' : FrameStream} {frame : Frame} (h : s.next = (.complete frame, s')) :
    decodeFrame s.pending = .complete frame ∧ s'.pending = s.pending.drop frame.size ∧
      s'.poisoned = false := by
  unfold next at h
  split at h
  · exact absurd h (by simp)
  rename_i hsound
  split at h
  · rename_i found hdecode
    obtain ⟨hframe, rfl⟩ := Prod.mk.inj h
    obtain rfl := Found.complete.inj hframe
    refine ⟨hdecode, ?_, by simpa using hsound⟩
    simp only [pending, List.drop_drop]
  · exact absurd h (by simp)
  · exact absurd h (by simp)

/-- A sound stream fails where the front of its pending bytes is refused. -/
theorem next_refused {s s' : FrameStream} {refusal : Refusal} (hsound : s.poisoned = false)
    (h : s.next = (.refused refusal, s')) : decodeFrame s.pending = .refused refusal := by
  unfold next at h
  rw [hsound] at h
  simp only [Bool.false_eq_true, if_false] at h
  split at h
  · exact absurd h (by simp)
  · exact absurd h (by simp)
  · rename_i found hdecode
    obtain rfl := Found.refused.inj (Prod.mk.inj h).1
    exact hdecode

/-- A sound stream finds what is at the front of its pending bytes. -/
theorem next_fst {s : FrameStream} (hsound : s.poisoned = false) :
    s.next.1 = decodeFrame s.pending := by
  unfold next
  rw [if_neg (by simp [hsound])]
  cases decodeFrame s.pending with
  | needMore => rfl
  | complete frame => rfl
  | refused refusal => rfl

/-- Bytes within the bound are fed to a sound stream. -/
theorem feed_within {s : FrameStream} {bytes : Bytes} (hsound : s.poisoned = false)
    (h : s.pending.length + bytes.length ≤ kMaxBufferedBytes) : (s.feed bytes).1 = true := by
  cases hfeed : s.feed bytes with
  | mk fed s' =>
    cases fed with
    | true => rfl
    | false =>
      rcases feed_false hfeed with hpoisoned | hover
      · rw [hsound] at hpoisoned
        exact absurd hpoisoned (by simp)
      · omega

/-- A sound stream takes exactly what its bound leaves room for. -/
theorem feed_iff {s : FrameStream} {bytes : Bytes} (hsound : s.poisoned = false) :
    (s.feed bytes).1 = true ↔ s.pending.length + bytes.length ≤ kMaxBufferedBytes := by
  refine ⟨fun hfed => ?_, feed_within hsound⟩
  unfold feed at hfed
  rw [if_neg (by simp [hsound])] at hfed
  dsimp only at hfed
  split at hfed
  · exact absurd hfed (by simp)
  · rename_i hbound
    exact not_lt.mp hbound

end FrameStream

end Fcfn.Net
