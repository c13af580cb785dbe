import Mathlib.Data.Nat.Digits.Defs
import Mathlib.Data.Nat.Digits.Lemmas

/-!
# Decimal numerals over bytes

Texts are lists of bytes.  `decimal n` is the numeral a printer writes for `n`, and
`decimalInt z` puts a `-` in front of the negative ones.  Reading goes through `digitsValue`,
the left fold every digit loop computes; `digitsValue_decimal` says that reading a printed
numeral gives the number back.  Nothing here depends on the machine width of the number: the
bounded readers built on top add their own range tests.
-/

namespace Rojcpp.Lib

/-- The byte of the digit `d`, for `d < 10`. -/
def digitByte (d : ℕ) : UInt8 := UInt8.ofNat (48 + d)

/-- Whether a byte is one of `0` .. `9`. -/
def isDigit (c : UInt8) : Bool := 48 ≤ c && c ≤ 57

/-- The value of a digit byte. -/
def digitVal (c : UInt8) : ℕ := c.toNat - 48

/-- The value of a run of digits appended to a number already read. -/
def digitsValue (acc : ℕ) (s : List UInt8) : ℕ := s.foldl (fun a c => a * 10 + digitVal c) acc

/-- The decimal numeral of a natural number. -/
def decimal (n : ℕ) : List UInt8 :=
  if n = 0 then [48] else (Nat.digits 10 n).reverse.map digitByte

/-- The decimal numeral of an integer. -/
def decimalInt (z : ℤ) : List UInt8 :=
  if z < 0 then 45 :: decimal z.natAbs else decimal z.natAbs

theorem toNat_digitByte (d : ℕ) (hd : d < 10) : (digitByte d).toNat = 48 + d := by
  rw [digitByte, UInt8.toNat_ofNat']
  omega

theorem isDigit_digitByte (d : ℕ) (hd : d < 10) : isDigit (digitByte d) = true := by
  have h := toNat_digitByte d hd
  simp only [isDigit, Bool.and_eq_true, decide_eq_true_eq, UInt8.le_iff_toNat_le, h]
  exact ⟨by simp, by simp; omega⟩

theorem digitVal_digitByte (d : ℕ) (hd : d < 10) : digitVal (digitByte d) = d := by
  simp only [digitVal, toNat_digitByte d hd, Nat.add_sub_cancel_left]

@[simp] theorem digitsValue_cons (acc : ℕ) (c : UInt8) (s : List UInt8) :
    digitsValue acc (c :: s) = digitsValue (acc * 10 + digitVal c) s := by
  rw [digitsValue, List.foldl_cons, digitsValue]

theorem decimal_ne_nil (n : ℕ) : decimal n ≠ [] := by
  unfold decimal
  split
  · simp
  · rename_i hn
    simpa using Nat.digits_ne_nil_iff_ne_zero.mpr hn

theorem decimal_isDigit (n : ℕ) : ∀ c ∈ decimal n, isDigit c = true := by
  unfold decimal
  split
  · simp [isDigit]
  · intro c hc
    obtain ⟨d, hd, rfl⟩ := List.mem_map.mp hc
    exact isDigit_digitByte d (Nat.digits_lt_base (by norm_num) (List.mem_reverse.mp hd))

/-- A numeral has more than `k` digits from `10 ^ k` on. -/
theorem lt_decimal_length_iff {k : ℕ} (hk : 0 < k) (n : ℕ) :
    k < (decimal n).length ↔ 10 ^ k ≤ n := by
  rw [decimal]
  split
  · next hn =>
    have hpow : 0 < 10 ^ k := by positivity
    rw [hn, List.length_singleton]
    omega
  · rw [List.length_map, List.length_reverse, Nat.lt_digits_length_iff (by omega)]

theorem decimalInt_ne_nil (z : ℤ) : decimalInt z ≠ [] := by
  unfold decimalInt
  split
  · simp
  · exact decimal_ne_nil _

/-- The bytes of a printed integer: digits, and the minus sign. -/
theorem decimalInt_mem {z : ℤ} {c : UInt8} (h : c ∈ decimalInt z) :
    isDigit c = true ∨ c = 45 := by
  unfold decimalInt at h
  split at h
  · rcases List.mem_cons.mp h with rfl | h
    · exact .inr rfl
    · exact .inl (decimal_isDigit _ c h)
  · exact .inl (decimal_isDigit _ c h)

/-- Folding a list of digit bytes is folding the digits. -/
theorem digitsValue_map_digitByte (ds : List ℕ) (hds : ∀ d ∈ ds, d < 10) (acc : ℕ) :
    digitsValue acc (ds.map digitByte) = ds.foldl (fun a d => a * 10 + d) acc := by
  induction ds generalizing acc with
  | nil => rfl
  | cons d ds ih =>
    have hd : d < 10 := hds d (by simp)
    rw [List.map_cons, digitsValue_cons, digitVal_digitByte d hd]
    exact ih (fun e he => hds e (by simp [he])) _

/-- **Reading back a printed numeral.** -/
theorem digitsValue_decimal (n : ℕ) : digitsValue 0 (decimal n) = n := by
  unfold decimal
  split
  · rename_i hn
    subst hn
    rfl
  · rw [digitsValue_map_digitByte _ (fun d hd =>
      Nat.digits_lt_base (by norm_num) (List.mem_reverse.mp hd)), List.foldl_reverse]
    calc (Nat.digits 10 n).foldr (fun d a => a * 10 + d) 0
        = Nat.ofDigits 10 (Nat.digits 10 n) := by
          rw [Nat.ofDigits_eq_foldr]
          congr 1
          funext d a
          push_cast
          ring
      _ = n := Nat.ofDigits_digits 10 n

/-- A digit run followed by something that is not a digit is cut off exactly. -/
theorem takeWhile_digits (s t : List UInt8) (hs : ∀ c ∈ s, isDigit c = true)
    (ht : ∀ c ∈ t.head?, isDigit c = false) : (s ++ t).takeWhile isDigit = s := by
  rw [List.takeWhile_append_of_pos hs]
  cases t with
  | nil => simp
  | cons c t => simp [ht c (by simp)]

theorem dropWhile_digits (s t : List UInt8) (hs : ∀ c ∈ s, isDigit c = true)
    (ht : ∀ c ∈ t.head?, isDigit c = false) : (s ++ t).dropWhile isDigit = t := by
  rw [List.dropWhile_append_of_pos hs]
  cases t with
  | nil => simp
  | cons c t => simp [ht c (by simp)]

end Rojcpp.Lib
