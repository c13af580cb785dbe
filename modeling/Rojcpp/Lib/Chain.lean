import Mathlib.Data.List.Nodup
import Mathlib.Logic.Function.Basic

/-!
# Chains of nodes

Nodes with one pointer each, and a sentinel in front of them.  A pointer is null (`none`) or leads
to a node; the address `none` is the sentinel's.  `Chain next a l` says that the pointers lead from
the address `a` through the nodes of `l` to null.

`Chain.link` is the one edit at the end: the last node gets a new node behind it.
-/

namespace Rojcpp.Lib

open Function

variable {ν : Type*} {next next' : Option ν → Option ν}

/-- The pointers lead from `a` through `l` to null. -/
def Chain (next : Option ν → Option ν) (a : Option ν) : List ν → Prop
  | [] => next a = none
  | y :: l => next a = some y ∧ Chain next (some y) l

/-- The address of the last node behind `a`. -/
def lastAddr (a : Option ν) : List ν → Option ν
  | [] => a
  | y :: l => lastAddr (some y) l

theorem lastAddr_some (y : ν) (l : List ν) : lastAddr (some y) l = (y :: l).getLast? := by
  induction l generalizing y with
  | nil => rfl
  | cons z l ih => exact (ih z).trans List.getLast?_cons_cons.symm

/-- Behind the sentinel the last address is the last node. -/
theorem lastAddr_none (l : List ν) : lastAddr none l = l.getLast? := by
  cases l with
  | nil => rfl
  | cons y l => exact lastAddr_some y l

theorem lastAddr_mem (a : Option ν) (l : List ν) : lastAddr a l ∈ a :: l.map some := by
  induction l generalizing a with
  | nil => exact List.mem_cons_self
  | cons y l ih => exact List.mem_cons_of_mem a (ih (some y))

/-- A chain reads the pointers of its nodes. -/
theorem Chain.congr {a : Option ν} {l : List ν} (h : Chain next a l)
    (hnext : ∀ b ∈ a :: l.map some, next' b = next b) : Chain next' a l := by
  induction l generalizing a with
  | nil =>
    show next' a = none
    rw [hnext a List.mem_cons_self]
    exact h
  | cons y l ih =>
    refine ⟨?_, ih h.2 fun b hb => hnext b (List.mem_cons_of_mem a hb)⟩
    rw [hnext a List.mem_cons_self]
    exact h.1

section
variable [DecidableEq ν]

/-- A new node is made the end, and the last node gets it behind it. -/
def link (next : Option ν → Option ν) (last : Option ν) (n : ν) : Option ν → Option ν :=
  update (update next (some n) none) last (some n)

/-- **A chain grows at its end.** -/
theorem Chain.link {a : Option ν} {l : List ν} {n : ν} (h : Chain next a l)
    (hnodup : (a :: l.map some).Nodup) (hnew : some n ∉ a :: l.map some) :
    Chain (Lib.link next (lastAddr a l) n) a (l ++ [n]) := by
  induction l generalizing a with
  | nil =>
    have hne : some n ≠ a := fun e => hnew (e ▸ List.mem_cons_self)
    refine ⟨update_self _ _ _, ?_⟩
    show Lib.link next a n (some n) = none
    rw [Lib.link, update_of_ne hne, update_self]
  | cons y l ih =>
    have hrest := List.nodup_cons.mp hnodup
    have hne : a ≠ some n := fun e => hnew (e ▸ List.mem_cons_self)
    have hlast : a ≠ lastAddr (some y) l := fun e => hrest.1 (e ▸ lastAddr_mem (some y) l)
    refine ⟨?_, ih h.2 hrest.2 fun hmem => hnew (List.mem_cons_of_mem a hmem)⟩
    show update (update next (some n) none) (lastAddr (some y) l) (some n) a = some y
    rw [update_of_ne hlast, update_of_ne hne]
    exact h.1

/-- The pointer in front of a chain is set to its second node. -/
theorem Chain.drop {a : Option ν} {y : ν} {l : List ν} (h : Chain next a (y :: l))
    (ha : a ∉ l.map some) : Chain (update next a (next (some y))) a l := by
  have hrest := h.2
  cases l with
  | nil => exact (update_self _ _ _).trans hrest
  | cons z l =>
    refine ⟨(update_self _ _ _).trans hrest.1, hrest.2.congr fun b hb => update_of_ne ?_ _ _⟩
    intro hba
    exact ha (hba ▸ hb)

end

end Rojcpp.Lib
