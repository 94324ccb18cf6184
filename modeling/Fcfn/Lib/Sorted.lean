import Mathlib.Data.List.Chain
import Mathlib.Data.List.Sort

/-!
# Sorting by a key

`sortBy key` sorts a list by a key of a linear order. When no two keys of the result are equal side
by side, the keys ascend strictly, so the list is the only one with its elements in that order; a
list that ascends strictly already is left as it is. -/

namespace Fcfn.Sorted

variable {α κ : Type*} [LinearOrder κ]

/-- Sort by a key. -/
def sortBy (key : α → κ) (l : List α) : List α :=
  l.insertionSort (fun a b => key a ≤ key b)

/-- The keys ascend strictly along the list. -/
def Ascending (key : α → κ) (l : List α) : Prop :=
  (l.map key).Pairwise (· < ·)

variable {key : α → κ} {l : List α}

@[simp] theorem mem_sortBy {a : α} : a ∈ sortBy key l ↔ a ∈ l :=
  List.mem_insertionSort _

@[simp] theorem length_sortBy : (sortBy key l).length = l.length :=
  List.length_insertionSort _ _

theorem perm_sortBy : (sortBy key l).Perm l :=
  List.perm_insertionSort _ _

/-- The keys of a sorted list do not descend. -/
theorem pairwise_sortBy : ((sortBy key l).map key).Pairwise (· ≤ ·) := by
  have : IsTrans α (fun a b => key a ≤ key b) := ⟨fun _ _ _ => le_trans⟩
  have : Std.Total (fun a b : α => key a ≤ key b) := ⟨fun _ _ => le_total _ _⟩
  rw [List.pairwise_map]
  exact List.pairwise_insertionSort (fun a b => key a ≤ key b) l

/-- Sorting a list whose keys ascend leaves it as it is. -/
theorem sortBy_eq_self (h : Ascending key l) : sortBy key l = l := by
  rw [Ascending, List.pairwise_map] at h
  exact List.Pairwise.insertionSort_eq (h.imp le_of_lt)

/-- Keys that do not descend and do not repeat side by side ascend strictly. -/
theorem ascending_of_isChain (hle : (l.map key).Pairwise (· ≤ ·))
    (hne : l.IsChain (fun a b => key a ≠ key b)) : Ascending key l := by
  rw [Ascending, ← List.isChain_iff_pairwise, List.isChain_map]
  rw [← List.isChain_iff_pairwise, List.isChain_map] at hle
  rw [List.isChain_iff_getElem] at hle hne ⊢
  exact fun i hi => lt_of_le_of_ne (hle i hi) (hne i hi)

/-- Strictly ascending keys are distinct. -/
theorem Ascending.nodup (h : Ascending key l) : (l.map key).Nodup :=
  h.imp fun hlt => ne_of_lt hlt

/-- Elements of a list with ascending keys are equal when their keys are. -/
theorem Ascending.eq_of_key {a b : α} (h : Ascending key l) (ha : a ∈ l) (hb : b ∈ l)
    (hkey : key a = key b) : a = b :=
  List.inj_on_of_nodup_map h.nodup ha hb hkey

/-- Two lists with ascending keys and the same elements are equal. -/
theorem Ascending.eq_of_mem_iff {l' : List α} (h : Ascending key l) (h' : Ascending key l')
    (hmem : ∀ a, a ∈ l ↔ a ∈ l') : l = l' := by
  rw [Ascending, List.pairwise_map] at h h'
  have : Std.Irrefl (fun a b : α => key a < key b) := ⟨fun _ => lt_irrefl _⟩
  have : Std.Antisymm (fun a b : α => key a < key b) :=
    ⟨fun _ _ hab hba => absurd (lt_trans hab hba) (lt_irrefl _)⟩
  have hperm : l.Perm l' := by
    rw [List.perm_ext_iff_of_nodup]
    · exact hmem
    · exact h.imp fun hlt => by rintro rfl; exact lt_irrefl _ hlt
    · exact h'.imp fun hlt => by rintro rfl; exact lt_irrefl _ hlt
  exact hperm.eq_of_pairwise' h h'

/-- Sorting forgets the order of distinct elements. -/
theorem sortBy_id_eq_of_perm {l l' : List κ} (hnd : l.Nodup) (hperm : l.Perm l') :
    sortBy id l = sortBy id l' := by
  have hasc : ∀ l : List κ, l.Nodup → Ascending id (sortBy id l) := fun l hl =>
    ascending_of_isChain pairwise_sortBy (List.Pairwise.isChain (perm_sortBy.nodup_iff.mpr hl))
  exact (hasc _ hnd).eq_of_mem_iff (hasc _ (hperm.nodup_iff.mp hnd)) fun a => by
    rw [mem_sortBy, mem_sortBy, hperm.mem_iff]

/-- Sorting forgets the order of elements with distinct keys. -/
theorem sortBy_eq_of_perm {l' : List α} (hasc : Ascending key (sortBy key l)) (hperm : l.Perm l') :
    sortBy key l' = sortBy key l := by
  have hnodup : (l'.map key).Nodup := by
    have hsorted : ((sortBy key l).map key).Nodup := hasc.nodup
    exact ((perm_sortBy.trans hperm).map key).nodup_iff.mp hsorted
  have hasc' : Ascending key (sortBy key l') := by
    refine ascending_of_isChain pairwise_sortBy ?_
    have hnodup' : ((sortBy key l').map key).Nodup := (perm_sortBy.map key).nodup_iff.mpr hnodup
    rw [List.Nodup, List.pairwise_map] at hnodup'
    exact hnodup'.isChain
  exact hasc'.eq_of_mem_iff hasc fun a => by rw [mem_sortBy, mem_sortBy, hperm.mem_iff]

/-- A part of a list with ascending keys has ascending keys. -/
theorem Ascending.sublist {l' : List α} (h : Ascending key l) (hsub : l'.Sublist l) :
    Ascending key l' :=
  List.Pairwise.sublist (hsub.map key) h

end Fcfn.Sorted
