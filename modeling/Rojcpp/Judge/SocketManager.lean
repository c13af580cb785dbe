import Mathlib.Data.Nat.Notation
import Mathlib.Logic.Function.Basic

/-!
# The socket manager

The map from descriptors to whether they are in use, with the operations that run under its
mutex.  `get_specified_fd` and `remove` report failure to a caller that tries again.
-/

namespace Rojcpp.Judge

/-- `socketManager::socket_map`: the descriptors that are known, and whether each is in use. -/
abbrev SocketMap := ℕ → Option Bool

/-- `socketManager::insert`, which leaves a descriptor that is known already. -/
def SocketMap.insert (m : SocketMap) (fd : ℕ) : SocketMap :=
  match m fd with
  | none => Function.update m fd (some false)
  | some _ => m

/-- `socketManager::remove`: whether the descriptor was removed, and the map. -/
def SocketMap.remove (m : SocketMap) (fd : ℕ) : Bool × SocketMap :=
  match m fd with
  | none => (false, m)
  | some true => (false, m)
  | some false => (true, Function.update m fd none)

/-- `socketManager::unuse`. -/
def SocketMap.unuse (m : SocketMap) (fd : ℕ) : SocketMap :=
  match m fd with
  | none => m
  | some _ => Function.update m fd (some false)

/-- `socketManager::get_specified_fd`: whether the descriptor was taken, and the map. -/
def SocketMap.getSpecifiedFd (m : SocketMap) (fd : ℕ) : Bool × SocketMap :=
  match m fd with
  | none => (false, m)
  | some true => (false, m)
  | some false => (true, Function.update m fd (some true))

/-! ### What the operations change -/

theorem SocketMap.insert_apply (m : SocketMap) (fd k : ℕ) :
    m.insert fd k = if k = fd ∧ m fd = none then some false else m k := by
  cases h : m fd with
  | none => simp [insert, h, Function.update_apply]
  | some b => simp [insert, h]

theorem SocketMap.unuse_apply (m : SocketMap) (fd k : ℕ) :
    m.unuse fd k = if k = fd ∧ m fd ≠ none then some false else m k := by
  cases h : m fd with
  | none => simp [unuse, h]
  | some b => simp [unuse, h, Function.update_apply]

/-- A removal that succeeds was one of a descriptor not in use. -/
theorem SocketMap.remove_cases (m : SocketMap) (fd : ℕ) :
    (m fd = some false ∧ m.remove fd = (true, Function.update m fd none)) ∨
      m.remove fd = (false, m) := by
  rw [remove]
  split
  · exact .inr rfl
  · exact .inr rfl
  · rename_i h
    exact .inl ⟨h, rfl⟩

/-- A descriptor that is taken was not in use. -/
theorem SocketMap.getSpecifiedFd_cases (m : SocketMap) (fd : ℕ) :
    (m fd = some false ∧ m.getSpecifiedFd fd = (true, Function.update m fd (some true))) ∨
      m.getSpecifiedFd fd = (false, m) := by
  rw [getSpecifiedFd]
  split
  · exact .inr rfl
  · exact .inr rfl
  · rename_i h
    exact .inl ⟨h, rfl⟩

end Rojcpp.Judge
