import Mathlib.Logic.Function.Basic

/-!
# A token and its holder

Every party is at some place.  The places of a kind `P` hold a token when one party at most is at
such a place: the one that `own` names.  A party that moves keeps the token as it is, takes it when
nobody has it, or drops it.

`marks_update` is the same for a kind of place that any number of parties may be at.
-/

namespace Rojcpp.Lib

open Function

variable {ν π : Type*} {P : π → Bool} {place : ν → π}

/-- The party at a place of the kind is the owner. -/
def Holder (P : π → Bool) (place : ν → π) (own : Option ν) : Prop :=
  ∀ c, P (place c) = true ↔ own = some c

/-- Two parties at such a place are the same. -/
theorem Holder.eq {own : Option ν} (h : Holder P place own) {c d : ν} (hc : P (place c) = true)
    (hd : P (place d) = true) : c = d :=
  Option.some.inj (((h c).mp hc).symm.trans ((h d).mp hd))

theorem Holder.own_eq {own : Option ν} (h : Holder P place own) {c : ν} (hc : P (place c) = true) :
    own = some c :=
  (h c).mp hc

theorem Holder.ne {own : Option ν} (h : Holder P place own) {c : ν} (hc : P (place c) = false) :
    own ≠ some c := by
  intro hown
  rw [(h c).mpr hown] at hc
  exact absurd hc (by decide)

/-- Whoever is not the owner is not at such a place. -/
theorem Holder.ne' {own : Option ν} (h : Holder P place own) {c : ν} (hc : own ≠ some c) :
    P (place c) = false :=
  Bool.eq_false_iff.mpr fun e => hc ((h c).mp e)

variable [DecidableEq ν]

/-- One party moves, and what describes the parties at the places of a kind follows it. -/
theorem marks_update {A A' : ν → Prop} {c : ν} {p : π} (h : ∀ x, P (place x) = true ↔ A x)
    (hc : P p = true ↔ A' c) (hrest : ∀ x, x ≠ c → (A' x ↔ A x)) (x : ν) :
    P (update place c p x) = true ↔ A' x := by
  by_cases hx : x = c
  · subst hx
    rw [update_self]
    exact hc
  · rw [update_of_ne hx, h x]
    exact (hrest x hx).symm

/-- A party that moves between two places of the kind, or between two others, changes nothing. -/
theorem marks_keep {A : ν → Prop} {c : ν} {p : π} (h : ∀ x, P (place x) = true ↔ A x)
    (hp : P p = P (place c)) : ∀ x, P (update place c p x) = true ↔ A x :=
  marks_update h (by rw [hp]; exact h c) fun _ _ => Iff.rfl

theorem Holder.keep {own : Option ν} (h : Holder P place own) {c : ν} {p : π}
    (hp : P p = P (place c)) : Holder P (update place c p) own :=
  marks_keep h hp

theorem Holder.take (h : Holder P place none) {c : ν} {p : π} (hp : P p = true) :
    Holder P (update place c p) (some c) := by
  refine marks_update h (iff_of_true hp rfl) fun x hx => ?_
  exact iff_of_false (fun e => hx (Option.some.inj e).symm) nofun

theorem Holder.drop {c : ν} (h : Holder P place (some c)) {p : π} (hp : P p = false) :
    Holder P (update place c p) none := by
  refine marks_update h (iff_of_false (by rw [hp]; decide) nofun) fun x hx => ?_
  exact iff_of_false nofun fun e => hx (Option.some.inj e).symm

end Rojcpp.Lib
