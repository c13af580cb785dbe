import Rojcpp.Lib.Decimal

/-!
# Byte strings and the number conversions of the C++ library

A `std::string` or `std::string_view` is a list of bytes.  Character constants of the source
stay readable through the coercion from `Char`, and string constants through `ascii`.

The conversions are the ones the program calls: `std::to_string`, `std::from_chars` on
`std::size_t`, `atoll`, and `operator>>` on a string stream.  The stream keeps the two state
bits the standard keeps, because the program reads seven numbers in a row without looking at
them: once a bit is set, later reads leave their variable as it was.
-/

namespace Rojcpp

open Rojcpp.Lib

/-- A C++ byte string. -/
abbrev Str := List UInt8

instance coeCharUInt8 : Coe Char UInt8 := ⟨Char.toUInt8⟩

/-- A string constant of the source. -/
def ascii (s : String) : Str := s.toList.map Char.toUInt8

/-- A computation that may throw returns when both of its parts return. -/
theorem bind_ok_iff {ε α β : Type} {x : Except ε α} {f : α → Except ε β} {b : β} :
    x >>= f = .ok b ↔ ∃ a, x = .ok a ∧ f a = .ok b := by
  cases x with
  | error e => simp [bind, Except.bind]
  | ok a => simp [bind, Except.bind]

theorem map_ok_iff {ε α β : Type} {x : Except ε α} {f : α → β} {b : β} :
    x.map f = .ok b ↔ ∃ a, x = .ok a ∧ f a = b := by
  cases x with
  | error e => simp [Except.map]
  | ok a => simp [Except.map]

/-! ### Printing -/

/-- `std::to_string(int)`. -/
def toStringInt (x : Int32) : Str := decimalInt x.toInt

/-- `std::to_string(long)`. -/
def toStringLong (x : Int64) : Str := decimalInt x.toInt

/-- `std::to_string(unsigned long long)`. -/
def toStringULL (x : UInt64) : Str := decimal x.toNat

/-! ### Reading -/

/-- `isspace` in the C locale. -/
def isSpace (c : UInt8) : Bool := c == ' ' || (9 ≤ c && c ≤ 13)

/-- The optional sign in front of a number: whether it is a minus, and what follows it. -/
def scanSign : Str → Bool × Str
  | [] => (false, [])
  | c :: t => if c = '-' then (true, t) else if c = '+' then (false, t) else (false, c :: t)

/-- The optional sign and the digit run `num_get` and `strtoll` read; `none` without a digit. -/
def scanInt (s : Str) : Option ℤ × Str :=
  let signed := scanSign s
  let digits := signed.2.takeWhile isDigit
  let rest := signed.2.dropWhile isDigit
  if digits = [] then (none, rest)
  else (some (if signed.1 then -(digitsValue 0 digits : ℤ) else digitsValue 0 digits), rest)

/-- `std::from_chars` into a `std::size_t` that holds `old`: no sign and no blanks are skipped,
and a value out of range leaves the variable alone. -/
def fromChars (s : Str) (old : UInt64) : UInt64 :=
  let digits := s.takeWhile isDigit
  if digits = [] then old
  else if digitsValue 0 digits < 2 ^ 64 then UInt64.ofNat (digitsValue 0 digits) else old

/-- `atoll`, which saturates at the ends of `long long`. -/
def atoll (s : Str) : Int64 :=
  match (scanInt (s.dropWhile isSpace)).1 with
  | none => 0
  | some v => Int64.ofInt (max (-2 ^ 63) (min v (2 ^ 63 - 1)))

/-- An input string stream: the text not read yet and its `eofbit` and `failbit`. -/
structure IStream where
  rest : Str
  eof : Bool
  fail : Bool
  deriving DecidableEq, Repr

/-- A fresh stream over a text. -/
def IStream.ofStr (s : Str) : IStream := ⟨s, false, false⟩

/-- `stream >> variable` for an integer type with the range `[lo, hi]`; `old` is what the
variable holds before.  The sentry refuses a stream that is not good, and blanks up to the end of
the text set both bits; in these two cases the variable keeps `old`.  A text that is no number
stores `0`, a number out of range stores the nearest bound, and both set `failbit`. -/
def IStream.extract (lo hi : ℤ) (s : IStream) (old : ℤ) : ℤ × IStream :=
  if s.eof || s.fail then (old, { s with fail := true })
  else
    match s.rest.dropWhile isSpace with
    | [] => (old, ⟨[], true, true⟩)
    | c :: t =>
      match scanInt (c :: t) with
      | (none, rest) => (0, ⟨rest, rest.isEmpty, true⟩)
      | (some v, rest) =>
        if v < lo then (lo, ⟨rest, rest.isEmpty, true⟩)
        else if hi < v then (hi, ⟨rest, rest.isEmpty, true⟩)
        else (v, ⟨rest, rest.isEmpty, false⟩)

/-- `stream >> x` for an `int x`. -/
def IStream.extractInt (s : IStream) (old : Int32) : Int32 × IStream :=
  let r := s.extract (-2 ^ 31) (2 ^ 31 - 1) old.toInt
  (Int32.ofInt r.1, r.2)

/-- `stream >> x` for a `long x`. -/
def IStream.extractLong (s : IStream) (old : Int64) : Int64 × IStream :=
  let r := s.extract (-2 ^ 63) (2 ^ 63 - 1) old.toInt
  (Int64.ofInt r.1, r.2)

/-! ### Reading back what was printed -/

theorem scanSign_digits (s t : Str) (hs : ∀ c ∈ s, isDigit c = true) (hne : s ≠ []) :
    scanSign (s ++ t) = (false, s ++ t) := by
  obtain ⟨d, ds, rfl⟩ := List.exists_cons_of_ne_nil hne
  have hdig : isDigit d = true := hs d (by simp)
  have hminus : d ≠ '-' := by rintro rfl; exact absurd hdig (by decide)
  have hplus : d ≠ '+' := by rintro rfl; exact absurd hdig (by decide)
  rw [List.cons_append, scanSign, if_neg hminus, if_neg hplus]

theorem scanSign_decimalInt (z : ℤ) (t : Str) :
    scanSign (decimalInt z ++ t) = (decide (z < 0), decimal z.natAbs ++ t) := by
  by_cases hz : z < 0
  · rw [decimalInt, if_pos hz, List.cons_append, scanSign, if_pos (by decide), decide_eq_true hz]
  · rw [decimalInt, if_neg hz, scanSign_digits _ _ (decimal_isDigit _) (decimal_ne_nil _),
      decide_eq_false hz]

theorem scanInt_decimalInt (z : ℤ) (t : Str) (ht : ∀ c ∈ t.head?, isDigit c = false) :
    scanInt (decimalInt z ++ t) = (some z, t) := by
  have hds := decimal_isDigit z.natAbs
  rw [scanInt, scanSign_decimalInt]
  simp only [takeWhile_digits _ t hds ht, dropWhile_digits _ t hds ht, decimal_ne_nil,
    digitsValue_decimal, if_false, decide_eq_true_eq]
  by_cases hz : z < 0
  · rw [if_pos hz, show -((z.natAbs : ℕ) : ℤ) = z by omega]
  · rw [if_neg hz, show ((z.natAbs : ℕ) : ℤ) = z by omega]

/-- The first byte of a printed integer is a digit or a minus sign. -/
theorem decimalInt_head (z : ℤ) :
    ∃ c s, decimalInt z = c :: s ∧ (isDigit c = true ∨ c = '-') := by
  by_cases hz : z < 0
  · exact ⟨'-', decimal z.natAbs, by rw [decimalInt, if_pos hz]; rfl, .inr rfl⟩
  · obtain ⟨d, ds, hd⟩ := List.exists_cons_of_ne_nil (decimal_ne_nil z.natAbs)
    exact ⟨d, ds, by rw [decimalInt, if_neg hz, hd],
      .inl (decimal_isDigit z.natAbs d (by simp [hd]))⟩

theorem isSpace_of_digit (c : UInt8) (h : isDigit c = true ∨ c = '-') : isSpace c = false := by
  rcases h with h | rfl
  · simp only [isDigit, Bool.and_eq_true, decide_eq_true_eq, UInt8.le_iff_toNat_le] at h
    have h1 : 48 ≤ c.toNat := h.1
    simp only [isSpace, Bool.or_eq_false_iff, beq_eq_false_iff_ne, Bool.and_eq_false_iff,
      decide_eq_false_iff_not, UInt8.le_iff_toNat_le]
    refine ⟨?_, .inr (show ¬ c.toNat ≤ 13 by omega)⟩
    rintro rfl
    exact absurd h1 (by decide)
  · decide

/-- A number in range that was printed is read back by a good stream. -/
theorem extract_decimalInt (lo hi z old : ℤ) (hlo : lo ≤ z) (hhi : z ≤ hi) (t : Str)
    (ht : ∀ c ∈ t.head?, isDigit c = false) :
    (IStream.ofStr (decimalInt z ++ t)).extract lo hi old = (z, ⟨t, t.isEmpty, false⟩) := by
  obtain ⟨c, s, hcs, hc⟩ := decimalInt_head z
  have hdrop : (decimalInt z ++ t).dropWhile isSpace = decimalInt z ++ t := by
    rw [hcs, List.cons_append, List.dropWhile_cons_of_neg (by simp [isSpace_of_digit c hc])]
  simp only [IStream.extract, IStream.ofStr, Bool.or_self, Bool.false_eq_true, if_false, hdrop]
  rw [hcs, List.cons_append]
  simp only
  rw [← List.cons_append, ← hcs, scanInt_decimalInt z t ht]
  simp only
  rw [if_neg (by omega), if_neg (by omega)]

/-- `std::to_string` of an `int`, read back into an `int`. -/
theorem extractInt_toStringInt (x old : Int32) (t : Str)
    (ht : ∀ c ∈ t.head?, isDigit c = false) :
    (IStream.ofStr (toStringInt x ++ t)).extractInt old = (x, ⟨t, t.isEmpty, false⟩) := by
  have hlo := x.le_toInt
  have hhi := x.toInt_lt
  rw [IStream.extractInt, toStringInt,
    extract_decimalInt _ _ x.toInt old.toInt (by omega) (by omega) t ht]
  simp only [Int32.ofInt_toInt]

/-- `std::to_string` of a `std::size_t`, read back by `std::from_chars`. -/
theorem fromChars_decimal (n : ℕ) (hn : n < 2 ^ 64) (old : UInt64) :
    fromChars (decimal n) old = UInt64.ofNat n := by
  have htake := takeWhile_digits (decimal n) [] (decimal_isDigit n) (by simp)
  rw [List.append_nil] at htake
  rw [fromChars, htake]
  simp only [decimal_ne_nil, if_false, digitsValue_decimal, if_pos hn]

end Rojcpp
