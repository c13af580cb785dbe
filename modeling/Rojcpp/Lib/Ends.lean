import Mathlib.Tactic.Common

/-!
# How a computation that may fail ends

`Ends allowed P x` says of a computation with errors that its value has the property `P`, and that
it fails with an allowed error only.  `Ends.bind` is the rule for one computation behind another:
the second may use what the first promises.
-/

namespace Rojcpp.Lib

universe u

variable {ε : Type*} {α β : Type u} {allowed : ε → Prop} {P P' : α → Prop} {Q : β → Prop}

/-- The value has the property, and only the allowed errors are thrown. -/
inductive Ends (allowed : ε → Prop) (P : α → Prop) : Except ε α → Prop
  | ok {a : α} : P a → Ends allowed P (.ok a)
  | error {e : ε} : allowed e → Ends allowed P (.error e)

theorem Ends.mono {x : Except ε α} (hx : Ends allowed P x) (h : ∀ a, P a → P' a) :
    Ends allowed P' x := by
  cases hx with
  | ok ha => exact .ok (h _ ha)
  | error he => exact .error he

/-- The rule with the value the first computation has given. -/
theorem Ends.bind_eq {x : Except ε α} {f : α → Except ε β} (hx : Ends allowed P x)
    (hf : ∀ a, x = .ok a → P a → Ends allowed Q (f a)) : Ends allowed Q (x >>= f) := by
  cases hx with
  | ok ha => exact hf _ rfl ha
  | error he => exact .error he

/-- **Rule for one computation behind another.** -/
theorem Ends.bind {x : Except ε α} {f : α → Except ε β} (hx : Ends allowed P x)
    (hf : ∀ a, P a → Ends allowed Q (f a)) : Ends allowed Q (x >>= f) :=
  hx.bind_eq fun a _ => hf a

end Rojcpp.Lib
