import Mathlib.Data.List.Forall2
import Mathlib.Data.List.Basic

/-!
# Bounded tables

A table is a list in the order of insertion. `dropExcess` drops the oldest entries past a bound and
`updateFirst` changes the first entry that satisfies a test. What either leaves behind is said
entry by entry: a bounded table is a part of the table, and an updated one agrees with it
everywhere but at the entry that was changed. -/

namespace Fcfn.Tables

variable {α : Type*}

/-- Drop the oldest entries past a bound. -/
def dropExcess (bound : ℕ) (entries : List α) : List α := entries.drop (entries.length - bound)

/-- What is left is within the bound. -/
theorem length_dropExcess_le (bound : ℕ) (entries : List α) :
    (dropExcess bound entries).length ≤ bound := by
  unfold dropExcess
  rw [List.length_drop]
  omega

/-- Within the bound nothing is dropped. -/
theorem dropExcess_of_le {bound : ℕ} {entries : List α} (h : entries.length ≤ bound) :
    dropExcess bound entries = entries := by
  unfold dropExcess
  rw [Nat.sub_eq_zero_of_le h, List.drop_zero]

/-- What is left is a part of the table. -/
theorem dropExcess_sublist (bound : ℕ) (entries : List α) :
    (dropExcess bound entries).Sublist entries :=
  List.drop_sublist _ _

/-- What is left was there. -/
theorem mem_of_mem_dropExcess {bound : ℕ} {entries : List α} {a : α}
    (h : a ∈ dropExcess bound entries) : a ∈ entries :=
  (dropExcess_sublist bound entries).subset h

/-- Change the first entry that satisfies the test. -/
def updateFirst (test : α → Bool) (change : α → α) : List α → List α
  | [] => []
  | a :: rest => if test a then change a :: rest else a :: updateFirst test change rest

theorem updateFirst_cons (test : α → Bool) (change : α → α) (a : α) (rest : List α) :
    updateFirst test change (a :: rest) =
      if test a then change a :: rest else a :: updateFirst test change rest := rfl

/-- The entries of an updated table: all but the first that satisfies the test are unchanged. -/
theorem updateFirst_forall₂ (test : α → Bool) (change : α → α) (entries : List α) :
    List.Forall₂ (fun a a' => a' = a ∨ (entries.find? test = some a ∧ a' = change a)) entries
      (updateFirst test change entries) := by
  induction entries with
  | nil => exact List.Forall₂.nil
  | cons a rest ih =>
    rw [updateFirst_cons]
    by_cases ha : test a = true
    · rw [if_pos ha]
      refine List.Forall₂.cons (Or.inr ⟨by rw [List.find?_cons_of_pos ha], rfl⟩) ?_
      exact List.forall₂_same.mpr fun b _ => Or.inl rfl
    · rw [if_neg ha, List.find?_cons_of_neg ha]
      exact List.Forall₂.cons (Or.inl rfl) ih

/-- An entry of an updated table is an entry of the table or the changed one. -/
theorem mem_updateFirst {test : α → Bool} {change : α → α} {entries : List α} {b : α}
    (h : b ∈ updateFirst test change entries) :
    b ∈ entries ∨ ∃ a, entries.find? test = some a ∧ b = change a := by
  induction entries with
  | nil => exact absurd h List.not_mem_nil
  | cons a rest ih =>
    rw [updateFirst_cons] at h
    by_cases ha : test a = true
    · rw [if_pos ha, List.mem_cons] at h
      rcases h with rfl | h
      · exact Or.inr ⟨a, by rw [List.find?_cons_of_pos ha], rfl⟩
      · exact Or.inl (List.mem_cons_of_mem _ h)
    · rw [if_neg ha, List.mem_cons] at h
      rw [List.find?_cons_of_neg ha]
      rcases h with rfl | h
      · exact Or.inl (by simp)
      · exact (ih h).imp_left (List.mem_cons_of_mem _)

/-- The changed entry is in the updated table. -/
theorem change_mem_updateFirst {test : α → Bool} {change : α → α} {entries : List α} {a : α}
    (h : entries.find? test = some a) : change a ∈ updateFirst test change entries := by
  induction entries with
  | nil => exact absurd h (by simp)
  | cons b rest ih =>
    rw [updateFirst_cons]
    by_cases hb : test b = true
    · rw [List.find?_cons_of_pos hb, Option.some.injEq] at h
      rw [if_pos hb, h]
      exact List.mem_cons_self
    · rw [List.find?_cons_of_neg hb] at h
      rw [if_neg hb]
      exact List.mem_cons_of_mem _ (ih h)

/-- The entry that was changed is found under the test that it still satisfies. -/
theorem find?_updateFirst_self {test : α → Bool} {change : α → α} (entries : List α)
    (h : ∀ a, test a = true → test (change a) = true) :
    (updateFirst test change entries).find? test = (entries.find? test).map change := by
  induction entries with
  | nil => rfl
  | cons b rest ih =>
    rw [updateFirst_cons]
    by_cases hb : test b = true
    · rw [if_pos hb, List.find?_cons_of_pos hb, List.find?_cons_of_pos (h b hb)]
      rfl
    · rw [if_neg hb, List.find?_cons_of_neg hb, List.find?_cons_of_neg hb, ih]

/-- Another entry is found as before. -/
theorem find?_updateFirst_of_ne {test test' : α → Bool} {change : α → α} (entries : List α)
    (h : ∀ a, test a = true → test' a = false ∧ test' (change a) = false) :
    (updateFirst test change entries).find? test' = entries.find? test' := by
  induction entries with
  | nil => rfl
  | cons b rest ih =>
    rw [updateFirst_cons]
    by_cases hb : test b = true
    · obtain ⟨hold, hnew⟩ := h b hb
      rw [if_pos hb, List.find?_cons_of_neg (by simp [hnew]), List.find?_cons_of_neg (by simp [hold])]
    · rw [if_neg hb, List.find?_cons, List.find?_cons, ih]

/-- An update keeps the length of the table. -/
theorem length_updateFirst (test : α → Bool) (change : α → α) (entries : List α) :
    (updateFirst test change entries).length = entries.length :=
  (updateFirst_forall₂ test change entries).length_eq.symm

/-- What a change keeps of the entry it applies to, it keeps of the table. -/
theorem map_updateFirst {β : Type*} {test : α → Bool} {change : α → α} {f : α → β}
    (entries : List α) (h : ∀ a, test a = true → f (change a) = f a) :
    (updateFirst test change entries).map f = entries.map f := by
  induction entries with
  | nil => rfl
  | cons b rest ih =>
    rw [updateFirst_cons]
    by_cases hb : test b = true
    · rw [if_pos hb, List.map_cons, List.map_cons, h b hb]
    · rw [if_neg hb, List.map_cons, List.map_cons, ih]

/-- Updating an entry that a filter drops, before and after, does not show in what is kept. -/
theorem filter_updateFirst {test p : α → Bool} {change : α → α} {entries : List α}
    (h : ∀ a, entries.find? test = some a → p a = false ∧ p (change a) = false) :
    (updateFirst test change entries).filter p = entries.filter p := by
  induction entries with
  | nil => rfl
  | cons b rest ih =>
    rw [updateFirst_cons]
    by_cases hb : test b = true
    · obtain ⟨hold, hnew⟩ := h b (by rw [List.find?_cons_of_pos hb])
      rw [if_pos hb, List.filter_cons_of_neg (by simp [hnew]), List.filter_cons_of_neg (by simp [hold])]
    · rw [List.find?_cons_of_neg hb] at h
      rw [if_neg hb, List.filter_cons, List.filter_cons, ih h]

/-- Updating an entry that a filter keeps, to one that it drops, leaves one fewer. -/
theorem length_filter_updateFirst {test p : α → Bool} {change : α → α} {entries : List α} {a : α}
    (hfind : entries.find? test = some a) (hold : p a = true) (hnew : p (change a) = false) :
    ((updateFirst test change entries).filter p).length + 1 = (entries.filter p).length := by
  induction entries with
  | nil => exact absurd hfind (by simp)
  | cons b rest ih =>
    rw [updateFirst_cons]
    by_cases hb : test b = true
    · rw [List.find?_cons_of_pos hb, Option.some.injEq] at hfind
      subst hfind
      rw [if_pos hb, List.filter_cons_of_neg (by simp [hnew]), List.filter_cons_of_pos hold]
      rfl
    · rw [List.find?_cons_of_neg hb] at hfind
      have hrest := ih hfind
      rw [if_neg hb, List.filter_cons, List.filter_cons]
      cases hpb : p b with
      | true => simpa using hrest
      | false => simpa using hrest

/-- Updating an entry that a filter keeps leaves no more. -/
theorem length_filter_updateFirst_le {test p : α → Bool} {change : α → α} {entries : List α} {a : α}
    (hfind : entries.find? test = some a) (hold : p a = true) :
    ((updateFirst test change entries).filter p).length ≤ (entries.filter p).length := by
  induction entries with
  | nil => exact absurd hfind (by simp)
  | cons b rest ih =>
    rw [updateFirst_cons]
    by_cases hb : test b = true
    · rw [List.find?_cons_of_pos hb, Option.some.injEq] at hfind
      subst hfind
      rw [if_pos hb, List.filter_cons_of_pos hold, List.filter_cons]
      split
      · simp
      · simp
    · rw [List.find?_cons_of_neg hb] at hfind
      have hrest := ih hfind
      rw [if_neg hb, List.filter_cons, List.filter_cons]
      cases hpb : p b with
      | true => simpa using hrest
      | false => simpa using hrest

/-- Updating an entry that a filter keeps, before and after, shows in what is kept. -/
theorem map_filter_updateFirst {β : Type*} {test p : α → Bool} {change : α → α} {entries : List α}
    {a : α} {f : α → β} (hfind : entries.find? test = some a) (hold : p a = true)
    (hnew : p (change a) = true) (hne : f (change a) ≠ f a) :
    ((updateFirst test change entries).filter p).length = (entries.filter p).length ∧
      ((updateFirst test change entries).filter p).map f ≠ (entries.filter p).map f := by
  induction entries with
  | nil => exact absurd hfind (by simp)
  | cons b rest ih =>
    rw [updateFirst_cons]
    by_cases hb : test b = true
    · rw [List.find?_cons_of_pos hb, Option.some.injEq] at hfind
      subst hfind
      rw [if_pos hb, List.filter_cons_of_pos hnew, List.filter_cons_of_pos hold]
      exact ⟨by simp, by simp [hne]⟩
    · rw [List.find?_cons_of_neg hb] at hfind
      obtain ⟨hlength, hmap⟩ := ih hfind
      rw [if_neg hb, List.filter_cons, List.filter_cons]
      cases hpb : p b with
      | true => exact ⟨by simp [hlength], by simpa using hmap⟩
      | false => exact ⟨by simpa using hlength, by simpa using hmap⟩

end Fcfn.Tables
