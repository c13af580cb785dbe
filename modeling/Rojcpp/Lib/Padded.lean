import Mathlib.Data.List.DropRight
import Mathlib.Data.List.GetD
import Mathlib.Data.List.Induction

/-!
# Lists that go on with a default

A list of which only `getD` with a fixed default `d` matters stands for an infinite sequence that is
`d` from some point on.  `trimEnd` picks the shortest of the lists that stand for one sequence:

* `trimEnd_eq_iff` — two lists are trimmed to the same one exactly when they stand for the same
  sequence;
* `properPrefix_trimEnd_iff` — a proper prefix of a trimmed list, read off the sequence.
-/

namespace Rojcpp.Lib

theorem getD_concat_default {α : Type*} (d : α) (l : List α) (i : ℕ) :
    (l ++ [d]).getD i d = l.getD i d := by
  by_cases h : i < l.length
  · rw [List.getD_append _ _ _ _ h]
  · have hle : l.length ≤ i := Nat.le_of_not_lt h
    rw [List.getD_append_right _ _ _ _ hle, List.getD_eq_default _ _ hle]
    cases i - l.length with
    | zero => rfl
    | succ k => rfl

variable {α : Type*} [DecidableEq α] (d : α)

/-- The list without the defaults at its end. -/
def trimEnd (l : List α) : List α := l.rdropWhile fun x => x == d

/-- Trimming keeps the sequence. -/
theorem getD_trimEnd (l : List α) (i : ℕ) : (trimEnd d l).getD i d = l.getD i d := by
  induction l using List.reverseRecOn with
  | nil => rfl
  | append_singleton l a ih =>
    by_cases ha : a = d
    · rw [trimEnd, List.rdropWhile_concat_pos _ _ _ (by simp [ha]), ha, getD_concat_default]
      exact ih
    · rw [trimEnd, List.rdropWhile_concat_neg _ _ _ (by simp [ha])]

/-- The last element of a trimmed list is not the default. -/
theorem trimEnd_last {l : List α} (h : trimEnd d l ≠ []) :
    (trimEnd d l).getD ((trimEnd d l).length - 1) d ≠ d := by
  have hlast : ¬ ((trimEnd d l).getLast h == d) = true :=
    List.rdropWhile_last_not (fun x => x == d) l h
  rw [beq_iff_eq, List.getLast_eq_getElem] at hlast
  have hpos := List.length_pos_iff.mpr h
  rw [List.getD_eq_getElem _ _ (by omega)]
  exact hlast

/-- What is not the default stands inside the trimmed list. -/
theorem lt_length_trimEnd {l : List α} {i : ℕ} (h : l.getD i d ≠ d) :
    i < (trimEnd d l).length := by
  by_contra hle
  rw [← getD_trimEnd d l i, List.getD_eq_default _ _ (Nat.le_of_not_lt hle)] at h
  exact h rfl

theorem length_trimEnd_le {l m : List α} (h : ∀ i, l.getD i d = m.getD i d) :
    (trimEnd d l).length ≤ (trimEnd d m).length := by
  by_cases hne : trimEnd d l = []
  · rw [hne]
    exact Nat.zero_le _
  · have hlast := trimEnd_last d hne
    rw [getD_trimEnd, h] at hlast
    have hlt := lt_length_trimEnd d hlast
    omega

/-- **Trimmed lists are equal exactly when the sequences are.** -/
theorem trimEnd_eq_iff {l m : List α} :
    trimEnd d l = trimEnd d m ↔ ∀ i, l.getD i d = m.getD i d := by
  constructor
  · intro h i
    rw [← getD_trimEnd d l, ← getD_trimEnd d m, h]
  · intro h
    have hlen := Nat.le_antisymm (length_trimEnd_le d h)
      (length_trimEnd_le d fun i => (h i).symm)
    refine List.ext_getElem hlen fun i hl hm => ?_
    rw [← List.getD_eq_getElem _ d hl, ← List.getD_eq_getElem _ d hm, getD_trimEnd, getD_trimEnd, h]

/-- What is trimmed already is trimmed once. -/
theorem trimEnd_cons_trimEnd (c : α) (l : List α) :
    trimEnd d (c :: trimEnd d l) = trimEnd d (c :: l) := by
  refine (trimEnd_eq_iff d).mpr fun i => ?_
  cases i with
  | zero => rfl
  | succ i =>
    rw [List.getD_cons_succ, List.getD_cons_succ]
    exact getD_trimEnd d l i

/-- Trimming takes off defaults. -/
theorem exists_trimEnd_append (l : List α) : ∃ n, l = trimEnd d l ++ List.replicate n d := by
  induction l using List.reverseRecOn with
  | nil => exact ⟨0, rfl⟩
  | append_singleton l a ih =>
    by_cases ha : a = d
    · obtain ⟨n, hn⟩ := ih
      refine ⟨n + 1, ?_⟩
      rw [trimEnd, List.rdropWhile_concat_pos _ _ _ (by simp [ha]), List.replicate_succ', ha,
        ← List.append_assoc]
      exact congrArg (· ++ [d]) hn
    · refine ⟨0, ?_⟩
      rw [trimEnd, List.rdropWhile_concat_neg _ _ _ (by simp [ha]), List.replicate_zero,
        List.append_nil]
theorem trimEnd_append_replicate (l : List α) (n : ℕ) :
    trimEnd d (l ++ List.replicate n d) = trimEnd d l := by
  induction n with
  | zero => rw [List.replicate_zero, List.append_nil]
  | succ n ih =>
    rw [List.replicate_succ', ← List.append_assoc, trimEnd,
      List.rdropWhile_concat_pos _ _ _ (by simp)]
    exact ih

/-- **A proper prefix of a trimmed list**: the same up to its end, and something else behind. -/
theorem properPrefix_trimEnd_iff {c u : List α} :
    (c <+: trimEnd d u ∧ c ≠ trimEnd d u) ↔
      (∀ i < c.length, c.getD i d = u.getD i d) ∧ ∃ i, c.length ≤ i ∧ u.getD i d ≠ d := by
  constructor
  · intro h
    obtain ⟨⟨e, he⟩, hne⟩ := h
    have hpos : e ≠ [] := by
      intro hnil
      rw [hnil, List.append_nil] at he
      exact hne he
    have hlen : (trimEnd d u).length = c.length + e.length := by
      rw [← he, List.length_append]
    have hlast := trimEnd_last d (l := u) (by simp [← he, hpos])
    rw [getD_trimEnd] at hlast
    refine ⟨fun i hi => ?_, _, ?_, hlast⟩
    · rw [← getD_trimEnd d u, ← he, List.getD_append _ _ _ _ hi]
    · have := List.length_pos_iff.mpr hpos
      omega
  · intro h
    obtain ⟨hsame, i, hi, hrest⟩ := h
    have hlt := lt_length_trimEnd d hrest
    have htake : c = (trimEnd d u).take c.length := by
      refine List.ext_getElem (by rw [List.length_take]; omega) fun j hj hj' => ?_
      rw [List.getElem_take, ← List.getD_eq_getElem _ d hj,
        ← List.getD_eq_getElem _ d (by omega), getD_trimEnd, hsame j hj]
    refine ⟨List.prefix_iff_eq_take.mpr htake, ?_⟩
    intro heq
    rw [← heq] at hlt
    omega

end Rojcpp.Lib
