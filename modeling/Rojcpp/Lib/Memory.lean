import Mathlib.Data.List.Range
import Mathlib.Logic.Function.Basic
import Mathlib.Tactic.Common

/-!
# A block of memory

A block is a function from offsets to cells.  `store` puts a list of cells at an offset, `window`
reads some cells from an offset on.  The rules are those of a copy: it is read back where it was
put, and nothing else changes.

A `Write` is one store together with its place, and `writeAll` does a list of them; a write may
leave a block, and it is for the user of the library to ask where it goes.
-/

namespace Rojcpp.Lib

variable {β : Type*}

/-- The cells from an offset on. -/
def window (mem : ℕ → β) (off n : ℕ) : List β := (List.range n).map fun i => mem (off + i)

/-- A list of cells is put at an offset. -/
def store (mem : ℕ → β) (off : ℕ) : List β → ℕ → β
  | [] => mem
  | c :: cs => store (Function.update mem off c) (off + 1) cs

@[simp] theorem window_length (mem : ℕ → β) (off n : ℕ) : (window mem off n).length = n := by
  rw [window, List.length_map, List.length_range]

theorem window_congr {mem mem' : ℕ → β} {off n : ℕ}
    (h : ∀ i, off ≤ i → i < off + n → mem i = mem' i) : window mem off n = window mem' off n := by
  apply List.map_congr_left
  intro i hi
  have hlt := List.mem_range.mp hi
  exact h _ (by omega) (by omega)

theorem window_add (mem : ℕ → β) (off m n : ℕ) :
    window mem off (m + n) = window mem off m ++ window mem (off + m) n := by
  rw [window, List.range_add, List.map_append, List.map_map]
  congr 1
  apply List.map_congr_left
  intro i _
  show mem _ = mem _
  rw [Nat.add_assoc]

theorem window_take (mem : ℕ → β) (off : ℕ) {m n : ℕ} (h : m ≤ n) :
    (window mem off n).take m = window mem off m := by
  obtain ⟨k, rfl⟩ := Nat.exists_eq_add_of_le h
  rw [window_add, List.take_left' (window_length _ _ _)]

/-- **Outside a store nothing changes.** -/
theorem store_outside (cs : List β) : ∀ (mem : ℕ → β) (off : ℕ) {i : ℕ},
    i < off ∨ off + cs.length ≤ i → store mem off cs i = mem i := by
  induction cs with
  | nil => exact fun _ _ _ _ => rfl
  | cons c cs ih =>
    intro mem off i h
    rw [List.length_cons] at h
    rw [store, ih _ _ (by omega), Function.update_of_ne (by omega)]

/-- **A store is read back.** -/
theorem window_store (cs : List β) : ∀ (mem : ℕ → β) (off : ℕ),
    window (store mem off cs) off cs.length = cs := by
  induction cs with
  | nil => exact fun _ _ => rfl
  | cons c cs ih =>
    intro mem off
    have hfirst : store mem off (c :: cs) off = c := by
      rw [store, store_outside cs _ _ (.inl (Nat.lt_succ_self off)), Function.update_self]
    rw [List.length_cons, Nat.add_comm, window_add, store, ih]
    show [store mem off (c :: cs) (off + 0)] ++ cs = c :: cs
    rw [Nat.add_zero, hfirst]
    rfl

/-- A window beside a store. -/
theorem window_store_disjoint (cs : List β) (mem : ℕ → β) {off pos n : ℕ}
    (h : pos + n ≤ off ∨ off + cs.length ≤ pos) :
    window (store mem off cs) pos n = window mem pos n := by
  apply window_congr
  intro i hlo hhi
  exact store_outside cs mem off (by omega)

/-- Cells behind others. -/
theorem window_store_append (cs : List β) (mem : ℕ → β) (n : ℕ) :
    window (store mem n cs) 0 (n + cs.length) = window mem 0 n ++ cs := by
  rw [window_add, Nat.zero_add, window_store, window_store_disjoint cs mem (.inl (by omega))]

/-! ### Lists of stores -/

/-- A store with its place. -/
structure Write (β : Type*) where
  off : ℕ
  cells : List β

/-- The write puts something at this offset. -/
def Write.Covers (w : Write β) (i : ℕ) : Prop := w.off ≤ i ∧ i < w.off + w.cells.length

/-- Nothing is put at the offset `n` or behind it. -/
def Write.Below (w : Write β) (n : ℕ) : Prop := ∀ i, w.Covers i → i < n

/-- The stores one after the other. -/
def writeAll (mem : ℕ → β) (ws : List (Write β)) : ℕ → β :=
  ws.foldl (fun m w => store m w.off w.cells) mem

end Rojcpp.Lib
