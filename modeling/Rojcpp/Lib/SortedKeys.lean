import Mathlib.Data.List.Sort

/-!
# Sorting by a key

An order on entries that compares their keys first, and anything else where the keys are equal.
Sorted by it, the keys come in order, whatever happens between entries with one key; so two sorted
lists have the same keys at every position exactly when the unsorted ones have the same keys, each
as often.
-/

namespace Rojcpp.Lib

variable {α κ : Type*} [LinearOrder κ] (key : α → κ) (r : α → α → Prop) [DecidableRel r]

/-- The order compares keys first. -/
structure KeyFirst : Prop where
  le_of_rel : ∀ a b, r a b → key a ≤ key b
  le_of_not_rel : ∀ a b, ¬ r a b → key b ≤ key a

variable {key r}

theorem KeyFirst.orderedInsert (h : KeyFirst key r) (a : α) (l : List α)
    (hl : (l.map key).Pairwise (· ≤ ·)) : ((l.orderedInsert r a).map key).Pairwise (· ≤ ·) := by
  induction l with
  | nil => exact List.pairwise_singleton _ _
  | cons b l ih =>
    rw [List.map_cons, List.pairwise_cons] at hl
    by_cases hab : r a b
    · rw [List.orderedInsert_cons_of_le r l hab, List.map_cons, List.map_cons, List.pairwise_cons,
        List.pairwise_cons]
      have hkey := h.le_of_rel a b hab
      refine ⟨fun k hk => ?_, hl⟩
      rcases List.mem_cons.mp hk with rfl | hk
      · exact hkey
      · exact hkey.trans (hl.1 k hk)
    · rw [List.orderedInsert_of_not_le r l hab, List.map_cons, List.pairwise_cons]
      refine ⟨fun k hk => ?_, ih hl.2⟩
      obtain ⟨c, hc, rfl⟩ := List.mem_map.mp hk
      rcases (List.mem_orderedInsert r).mp hc with rfl | hc
      · exact h.le_of_not_rel _ _ hab
      · exact hl.1 _ (List.mem_map_of_mem hc)

/-- **The keys of a sorted list come in order.** -/
theorem KeyFirst.insertionSort (h : KeyFirst key r) (l : List α) :
    ((l.insertionSort r).map key).Pairwise (· ≤ ·) := by
  induction l with
  | nil => exact List.Pairwise.nil
  | cons a l ih => exact h.orderedInsert a _ ih

/-- **Two sorted lists have the same keys position by position exactly when they have the same
keys.** -/
theorem KeyFirst.map_insertionSort_eq_iff (h : KeyFirst key r) (l l' : List α) :
    (l.insertionSort r).map key = (l'.insertionSort r).map key ↔
      (l.map key).Perm (l'.map key) := by
  have hl := (List.perm_insertionSort r l).map key
  have hl' := (List.perm_insertionSort r l').map key
  constructor
  · intro heq
    rw [heq] at hl
    exact hl.symm.trans hl'
  · intro hperm
    have hsorted : ((l.insertionSort r).map key).Perm ((l'.insertionSort r).map key) :=
      hl.trans (hperm.trans hl'.symm)
    exact hsorted.eq_of_pairwise (fun a b _ _ hab hba => le_antisymm hab hba) (h.insertionSort l)
      (h.insertionSort l')

end Rojcpp.Lib
