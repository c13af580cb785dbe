import Mathlib.Algebra.BigOperators.Group.Finset.Piecewise
import Mathlib.Algebra.Order.BigOperators.Group.Finset
import Mathlib.Data.Fintype.Basic
import Mathlib.Algebra.Ring.Nat

/-!
# Counting over a family of threads

A counter that several threads go up and down with is compared with the sum of what each of them
has contributed.  When one thread changes, the sum changes by its contribution.
-/

namespace Rojcpp.Lib

open Function

variable {τ σ : Type*} [Fintype τ]

/-- One thread takes another state: its old contribution leaves the sum and its new one enters. -/
theorem sum_update [DecidableEq τ] (g : σ → ℕ) (f : τ → σ) (t : τ) (x : σ) :
    ∑ u, g (update f t x u) + g (f t) = ∑ u, g (f u) + g x := by
  have hrest : ∑ u ∈ Finset.univ.erase t, g (update f t x u) =
      ∑ u ∈ Finset.univ.erase t, g (f u) := by
    apply Finset.sum_congr rfl
    intro u hu
    rw [update_of_ne (Finset.ne_of_mem_erase hu)]
  have hnew := Finset.add_sum_erase Finset.univ (fun u => g (update f t x u)) (Finset.mem_univ t)
  have hold := Finset.add_sum_erase Finset.univ (fun u => g (f u)) (Finset.mem_univ t)
  simp only [update_self] at hnew
  omega

/-- A contribution is at most the sum. -/
theorem le_sum (g : τ → ℕ) (t : τ) : g t ≤ ∑ u, g u :=
  Finset.single_le_sum (fun u _ => Nat.zero_le (g u)) (Finset.mem_univ t)

end Rojcpp.Lib
