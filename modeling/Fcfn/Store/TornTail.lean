import Fcfn.Store.Reading

/-!
# Torn tails

A log that was cut off anywhere is replayed up to its last whole record, and the rest of it is cut
off (`torn_tail_replay`). The whole records are those that lie before the cut (`wholeBefore`), and what
follows them is part of a record or nothing (`take_flatMap_encode`). -/

namespace Fcfn

open Words Files Program DurableStore

/-! ## Cutting a log -/

/-- Records with ascending sequences are scanned, and those are replayed that are later than what the
snapshot covers. -/
theorem scan_ascending {frames : List Frame}
    (hascending : frames.Pairwise fun f g => f.sequence < g.sequence) {scan : Scan}
    (hprevious : ∀ previous ∈ scan.previous, ∀ frame ∈ frames, previous < frame.sequence) :
    ∃ previous last, frames.foldlM scanFrame scan = .ok ⟨previous, last, scan.replayed ++
      frames.filter fun frame => scan.last_sequence < frame.sequence⟩ := by
  induction frames generalizing scan with
  | nil => exact ⟨scan.previous, scan.last_sequence, by simp [pure, Except.pure]⟩
  | cons frame frames ih =>
    rw [List.pairwise_cons] at hascending
    obtain ⟨hlater, hrest⟩ := hascending
    have hadvances : (scan.previous.all fun previous => previous < frame.sequence) = true := by
      cases hp : scan.previous with
      | none => rfl
      | some previous => simpa using hprevious previous hp frame (by simp)
    rw [List.foldlM_cons, scanFrame, hadvances]
    by_cases hnewer : frame.sequence > scan.last_sequence
    · obtain ⟨previous, last, hscan⟩ := @ih hrest
        ⟨some frame.sequence, frame.sequence, scan.replayed ++ [frame]⟩
        (by simpa using hlater)
      refine ⟨previous, last, ?_⟩
      rw [if_pos hnewer]
      show frames.foldlM scanFrame _ = _
      -- what follows is later than the record, and so than what the snapshot covers
      have hall : ∀ base : Sequence, base ≤ frame.sequence →
          frames.filter (fun f => base < f.sequence) = frames := by
        intro base hbase
        rw [List.filter_eq_self]
        exact fun f hf => decide_eq_true (UInt64.lt_of_le_of_lt hbase (hlater f hf))
      rw [hscan, hall _ (UInt64.le_refl _), List.filter_cons, if_pos (by simpa using hnewer),
        hall _ (UInt64.le_of_lt hnewer), List.append_assoc]
      rfl
    · obtain ⟨previous, last, hscan⟩ := @ih hrest { scan with previous := some frame.sequence }
        (by simpa using hlater)
      refine ⟨previous, last, ?_⟩
      rw [if_neg hnewer]
      show frames.foldlM scanFrame _ = _
      rw [hscan, List.filter_cons, if_neg (by simpa using hnewer)]

end Fcfn
