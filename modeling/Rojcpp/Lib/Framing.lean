import Mathlib.Algebra.Ring.Nat
import Mathlib.Tactic.Common

/-!
# Counted byte strings

A counted string is a big-endian 32-bit length followed by that many bytes.  The judge's protocol
uses it twice: for the strings inside a message and for the message as a whole.

`readBe32` and `takeCounted` split the front off a byte string.  Both are characterised by what
they split, so that a decoder built from them can be inverted without looking at bytes.
-/

namespace Rojcpp.Lib

/-! ### Big-endian words -/

/-- A 32-bit word, most significant byte first. -/
def be32 (v : UInt32) : List UInt8 :=
  [UInt8.ofNat (v.toNat / 2 ^ 24), UInt8.ofNat (v.toNat / 2 ^ 16), UInt8.ofNat (v.toNat / 2 ^ 8),
    UInt8.ofNat v.toNat]

/-- The word of four bytes. -/
def ofBe32 (a b c d : UInt8) : UInt32 :=
  UInt32.ofNat (a.toNat * 2 ^ 24 + b.toNat * 2 ^ 16 + c.toNat * 2 ^ 8 + d.toNat)

/-- The word at the front of a byte string, and the rest. -/
def readBe32 : List UInt8 → Option (UInt32 × List UInt8)
  | a :: b :: c :: d :: t => some (ofBe32 a b c d, t)
  | _ => none

@[simp] theorem be32_length (v : UInt32) : (be32 v).length = 4 := rfl

theorem ofBe32_toNat (a b c d : UInt8) :
    (ofBe32 a b c d).toNat = a.toNat * 2 ^ 24 + b.toNat * 2 ^ 16 + c.toNat * 2 ^ 8 + d.toNat := by
  have ha := a.toNat_lt
  have hb := b.toNat_lt
  have hc := c.toNat_lt
  have hd := d.toNat_lt
  rw [ofBe32, UInt32.toNat_ofNat']
  omega

theorem readBe32_be32 (v : UInt32) (t : List UInt8) : readBe32 (be32 v ++ t) = some (v, t) := by
  have hv := v.toNat_lt
  have hword : ofBe32 (UInt8.ofNat (v.toNat / 2 ^ 24)) (UInt8.ofNat (v.toNat / 2 ^ 16))
      (UInt8.ofNat (v.toNat / 2 ^ 8)) (UInt8.ofNat v.toNat) = v := by
    rw [← UInt32.toNat_inj, ofBe32_toNat]
    simp only [UInt8.toNat_ofNat']
    omega
  show some (_, t) = _
  rw [hword]

theorem readBe32_self (v : UInt32) : readBe32 (be32 v) = some (v, []) := by
  have h := readBe32_be32 v []
  rwa [List.append_nil] at h

theorem be32_ofBe32 (a b c d : UInt8) : be32 (ofBe32 a b c d) = [a, b, c, d] := by
  have ha := a.toNat_lt
  have hb := b.toNat_lt
  have hc := c.toNat_lt
  have hd := d.toNat_lt
  simp only [be32, ofBe32_toNat, List.cons.injEq, ← UInt8.toNat_inj, UInt8.toNat_ofNat', and_true]
  refine ⟨?_, ?_, ?_, ?_⟩ <;> omega

/-- What a word is read from. -/
theorem readBe32_eq_some {s t : List UInt8} {v : UInt32} :
    readBe32 s = some (v, t) ↔ s = be32 v ++ t := by
  constructor
  · intro h
    match s, h with
    | a :: b :: c :: d :: t, h =>
      cases h
      rw [be32_ofBe32]
      rfl
  · rintro rfl
    exact readBe32_be32 v t

/-- A word is missing only from a short string. -/
theorem readBe32_eq_none {s : List UInt8} : readBe32 s = none ↔ s.length < 4 := by
  match s with
  | [] => simp [readBe32]
  | [_] => simp [readBe32]
  | [_, _] => simp [readBe32]
  | [_, _, _] => simp [readBe32]
  | _ :: _ :: _ :: _ :: _ => simp [readBe32]

/-! ### Counted strings -/

/-- A string with its length in front. -/
def counted (s : List UInt8) : List UInt8 := be32 (UInt32.ofNat s.length) ++ s

/-- The counted string at the front of a byte string, and the rest. -/
def takeCounted (s : List UInt8) : Option (List UInt8 × List UInt8) :=
  match readBe32 s with
  | none => none
  | some (v, t) => if v.toNat ≤ t.length then some (t.take v.toNat, t.drop v.toNat) else none

/-- The length in front of a counted string. -/
theorem length_toNat {s : List UInt8} (hs : s.length < 2 ^ 32) :
    (UInt32.ofNat s.length).toNat = s.length := UInt32.toNat_ofNat_of_lt' hs

theorem takeCounted_counted (s t : List UInt8) (hs : s.length < 2 ^ 32) :
    takeCounted (counted s ++ t) = some (s, t) := by
  rw [takeCounted, counted, List.append_assoc, readBe32_be32]
  simp [length_toNat hs]

/-- What a counted string is taken from. -/
theorem takeCounted_eq_some {s x t : List UInt8} :
    takeCounted s = some (x, t) ↔ s = counted x ++ t ∧ x.length < 2 ^ 32 := by
  constructor
  · intro h
    rw [takeCounted] at h
    split at h
    · cases h
    rename_i v u hread
    simp only [Option.ite_none_right_eq_some, Option.some.injEq, Prod.mk.injEq] at h
    obtain ⟨hle, rfl, rfl⟩ := h
    have hlen : (u.take v.toNat).length = v.toNat := by
      rw [List.length_take]
      omega
    refine ⟨?_, by rw [hlen]; exact v.toNat_lt⟩
    rw [counted, hlen, UInt32.ofNat_toNat, List.append_assoc, List.take_append_drop,
      readBe32_eq_some.mp hread]
  · rintro ⟨rfl, hx⟩
    exact takeCounted_counted x t hx

@[simp] theorem counted_length (s : List UInt8) : (counted s).length = 4 + s.length := by
  rw [counted, List.length_append, be32_length]

end Rojcpp.Lib
