import Fcfn.Lib.Words

/-!
# Incremental decoders

A decoder looks at the front of the bytes received so far: it asks for more, finds an item, or
refuses. It is `Incremental` when more bytes change nothing once it has decided and when an item it
finds is made of some of the bytes. `items` is what such a decoder finds in a whole byte string, one
item after the other, and `rest` is what it leaves: the meaning of a stream, whatever the pieces it
arrives in (`items_append`, `rest_append`). -/

namespace Fcfn.Streams

open Words (Bytes)

variable {ε α : Type}

/-- What a decoder finds at the front of some bytes. -/
inductive Found (ε α : Type)
  | needMore
  | complete (item : α)
  | refused (error : ε)
  deriving DecidableEq, Repr

/-- More bytes change nothing once the decoder has decided, and an item takes up at least one byte
and no more than there are. -/
structure Incremental (decode : Bytes → Found ε α) (size : α → ℕ) : Prop where
  size_pos : ∀ item, 0 < size item
  size_le : ∀ {bytes item}, decode bytes = .complete item → size item ≤ bytes.length
  complete : ∀ {bytes item}, decode bytes = .complete item →
    ∀ more, decode (bytes ++ more) = .complete item
  refused : ∀ {bytes error}, decode bytes = .refused error →
    ∀ more, decode (bytes ++ more) = .refused error

section Items

variable (decode : Bytes → Found ε α) (size : α → ℕ)

/-- At most `n` items from the front of some bytes. -/
def itemsWithin : ℕ → Bytes → List α
  | 0, _ => []
  | n + 1, bytes =>
    match decode bytes with
    | .needMore => []
    | .refused _ => []
    | .complete item => item :: itemsWithin n (bytes.drop (size item))

/-- The items at the front of some bytes, up to the first place where there is none. -/
def items (bytes : Bytes) : List α := itemsWithin decode size bytes.length bytes

/-- What is behind at most `n` items at the front of some bytes. -/
def restWithin : ℕ → Bytes → Bytes
  | 0, bytes => bytes
  | n + 1, bytes =>
    match decode bytes with
    | .needMore => bytes
    | .refused _ => bytes
    | .complete item => restWithin n (bytes.drop (size item))

/-- What is behind the items at the front of some bytes. -/
def rest (bytes : Bytes) : Bytes := restWithin decode size bytes.length bytes

end Items

variable {decode : Bytes → Found ε α} {size : α → ℕ}

/-- Any two bounds that leave room for every byte find the same items. -/
theorem itemsWithin_congr (h : Incremental decode size) {n m : ℕ} {bytes : Bytes}
    (hn : bytes.length ≤ n) (hm : bytes.length ≤ m) :
    itemsWithin decode size n bytes = itemsWithin decode size m bytes := by
  have hempty : ∀ item, decode ([] : Bytes) ≠ .complete item := by
    intro item hfound
    have hpos := h.size_pos item
    have hle := h.size_le hfound
    simp only [List.length_nil] at hle
    omega
  have hzero : ∀ k, itemsWithin decode size k [] = [] := by
    intro k
    cases k with
    | zero => rfl
    | succ k =>
      unfold itemsWithin
      split
      · rfl
      · rfl
      · rename_i item hfound
        exact absurd hfound (hempty item)
  induction n generalizing m bytes with
  | zero =>
    obtain rfl : bytes = [] := List.length_eq_zero_iff.mp (by omega)
    rw [hzero, hzero]
  | succ n ih =>
    cases m with
    | zero =>
      obtain rfl : bytes = [] := List.length_eq_zero_iff.mp (by omega)
      rw [hzero, hzero]
    | succ m =>
      unfold itemsWithin
      split
      · rfl
      · rfl
      · rename_i item hfound
        have hpos := h.size_pos item
        have hle := h.size_le hfound
        have hdrop : (bytes.drop (size item)).length = bytes.length - size item :=
          List.length_drop
        rw [ih (m := m) (by omega) (by omega)]

/-- Nothing is found where the decoder asks for more. -/
theorem items_of_needMore {bytes : Bytes} (h : decode bytes = .needMore) :
    items decode size bytes = [] := by
  unfold items
  cases bytes.length with
  | zero => rfl
  | succ n => rw [itemsWithin, h]

/-- Nothing is found where the decoder refuses. -/
theorem items_of_refused {bytes : Bytes} {error : ε} (h : decode bytes = .refused error) :
    items decode size bytes = [] := by
  unfold items
  cases bytes.length with
  | zero => rfl
  | succ n => rw [itemsWithin, h]

/-- An item is found, and then those in the rest. -/
theorem items_of_complete (h : Incremental decode size) {bytes : Bytes} {item : α}
    (hfound : decode bytes = .complete item) :
    items decode size bytes = item :: items decode size (bytes.drop (size item)) := by
  have hpos := h.size_pos item
  have hle := h.size_le hfound
  obtain ⟨n, hn⟩ : ∃ n, bytes.length = n + 1 := ⟨bytes.length - 1, by omega⟩
  have hdrop : (bytes.drop (size item)).length = bytes.length - size item := List.length_drop
  rw [items, hn, itemsWithin, hfound]
  simp only
  rw [items, itemsWithin_congr h (by omega) le_rfl]

/-- An item found in the bytes so far is the first item of the whole. -/
theorem items_append_of_complete (h : Incremental decode size) {bytes : Bytes} {item : α}
    (hfound : decode bytes = .complete item) (more : Bytes) :
    items decode size (bytes ++ more) =
      item :: items decode size (bytes.drop (size item) ++ more) := by
  rw [items_of_complete h (h.complete hfound more),
    List.drop_append_of_le_length (h.size_le hfound)]

/-- After a refusal nothing is found, whatever follows. -/
theorem items_append_of_refused (h : Incremental decode size) {bytes : Bytes} {error : ε}
    (hfound : decode bytes = .refused error) (more : Bytes) :
    items decode size (bytes ++ more) = [] :=
  items_of_refused (h.refused hfound more)

/-! ## What is left -/

/-- Bytes hold no item, or a first item with fewer bytes behind it. -/
theorem items_induction {motive : Bytes → Prop} (h : Incremental decode size)
    (stop : ∀ bytes, (∀ item, decode bytes ≠ .complete item) → motive bytes)
    (more : ∀ bytes item, decode bytes = .complete item → motive (bytes.drop (size item)) →
      motive bytes) (bytes : Bytes) : motive bytes := by
  induction hn : bytes.length using Nat.strong_induction_on generalizing bytes with
  | _ n ih =>
    by_cases hfound : ∃ item, decode bytes = .complete item
    · obtain ⟨item, hitem⟩ := hfound
      have hpos := h.size_pos item
      have hle := h.size_le hitem
      have hdrop : (bytes.drop (size item)).length = bytes.length - size item := List.length_drop
      exact more bytes item hitem (ih _ (by omega) _ hdrop)
    · exact stop bytes fun item hitem => hfound ⟨item, hitem⟩

/-- Where no item is found, everything is left. -/
theorem restWithin_of_not_complete {bytes : Bytes} (h : ∀ item, decode bytes ≠ .complete item)
    (n : ℕ) : restWithin decode size n bytes = bytes := by
  cases n with
  | zero => rfl
  | succ n =>
    unfold restWithin
    split
    · rfl
    · rfl
    · rename_i item hitem
      exact absurd hitem (h item)

/-- Where no item is found, there are none. -/
theorem items_of_not_complete {bytes : Bytes} (h : ∀ item, decode bytes ≠ .complete item) :
    items decode size bytes = [] := by
  cases hdecode : decode bytes with
  | needMore => exact items_of_needMore hdecode
  | refused error => exact items_of_refused hdecode
  | complete item => exact absurd hdecode (h item)

/-- Any two bounds that leave room for every byte leave the same. -/
theorem restWithin_congr (h : Incremental decode size) {bytes : Bytes} {n m : ℕ}
    (hn : bytes.length ≤ n) (hm : bytes.length ≤ m) :
    restWithin decode size n bytes = restWithin decode size m bytes := by
  induction bytes using items_induction h generalizing n m with
  | stop bytes hstop => rw [restWithin_of_not_complete hstop, restWithin_of_not_complete hstop]
  | more bytes item hitem ih =>
    have hpos := h.size_pos item
    have hle := h.size_le hitem
    have hdrop : (bytes.drop (size item)).length = bytes.length - size item := List.length_drop
    obtain ⟨n, rfl⟩ : ∃ k, n = k + 1 := ⟨n - 1, by omega⟩
    obtain ⟨m, rfl⟩ : ∃ k, m = k + 1 := ⟨m - 1, by omega⟩
    rw [restWithin, restWithin, hitem]
    exact ih (by omega) (by omega)

/-- What is behind the first item, and those after it. -/
theorem rest_of_complete (h : Incremental decode size) {bytes : Bytes} {item : α}
    (hfound : decode bytes = .complete item) :
    rest decode size bytes = rest decode size (bytes.drop (size item)) := by
  have hpos := h.size_pos item
  have hle := h.size_le hfound
  have hdrop : (bytes.drop (size item)).length = bytes.length - size item := List.length_drop
  obtain ⟨n, hn⟩ : ∃ n, bytes.length = n + 1 := ⟨bytes.length - 1, by omega⟩
  rw [rest, hn, restWithin, hfound]
  simp only
  rw [rest, restWithin_congr h (by omega) le_rfl]

/-- Where no item is found, everything is left. -/
theorem rest_of_not_complete {bytes : Bytes} (h : ∀ item, decode bytes ≠ .complete item) :
    rest decode size bytes = bytes := restWithin_of_not_complete h _

/-- No item is at the front of what is left. -/
theorem decode_rest_ne_complete (h : Incremental decode size) (bytes : Bytes) (item : α) :
    decode (rest decode size bytes) ≠ .complete item := by
  induction bytes using items_induction h with
  | stop bytes hstop =>
    rw [rest_of_not_complete hstop]
    exact hstop item
  | more bytes found hfound ih =>
    rw [rest_of_complete h hfound]
    exact ih

/-- The items of a whole are those of its front, and those of what the front leaves and the rest. -/
theorem items_append (h : Incremental decode size) (bytes more : Bytes) :
    items decode size (bytes ++ more) =
      items decode size bytes ++ items decode size (rest decode size bytes ++ more) := by
  induction bytes using items_induction h with
  | stop bytes hstop =>
    rw [items_of_not_complete hstop, rest_of_not_complete hstop, List.nil_append]
  | more bytes item hitem ih =>
    rw [items_append_of_complete h hitem, ih, items_of_complete h hitem, rest_of_complete h hitem,
      List.cons_append]

/-- What a whole leaves is what is left of its front's rest and what follows. -/
theorem rest_append (h : Incremental decode size) (bytes more : Bytes) :
    rest decode size (bytes ++ more) = rest decode size (rest decode size bytes ++ more) := by
  induction bytes using items_induction h with
  | stop bytes hstop => rw [rest_of_not_complete hstop]
  | more bytes item hitem ih =>
    rw [rest_of_complete h (h.complete hitem more), rest_of_complete h hitem,
      List.drop_append_of_le_length (h.size_le hitem), ih]

/-- What was refused stays refused. -/
theorem decode_rest_append_of_refused (h : Incremental decode size) {bytes : Bytes} {error : ε}
    (hfound : decode (rest decode size bytes) = .refused error) (more : Bytes) :
    decode (rest decode size (bytes ++ more)) = .refused error ∧
      items decode size (bytes ++ more) = items decode size bytes := by
  have hmore := h.refused hfound more
  have hstop : ∀ item, decode (rest decode size bytes ++ more) ≠ .complete item := by
    intro item hitem
    rw [hmore] at hitem
    exact absurd hitem (by simp)
  rw [rest_append h, rest_of_not_complete hstop, items_append h, items_of_not_complete hstop,
    List.append_nil]
  exact ⟨hmore, rfl⟩

end Fcfn.Streams
