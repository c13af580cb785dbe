import Rojcpp.Cpp.Text

/-!
# The stream of a log record

`logStream` writes into a buffer of 4096 bytes.  A text is appended whole or not at all; a number
is written when 48 bytes are free.  `formatInter` takes the digits of an integer from the last one
on, by remainders that are negative for a negative number, finds them in a table around its middle,
and reverses what it has stored.

`none` is an access outside the table or the buffer.  `formatInter_decimal` says that there is none
for any integral type, and that the decimal numeral is appended.
-/

namespace Rojcpp.Logger

open Rojcpp.Lib

/-! ### The buffer -/

/-- `kSmallBuffer`. -/
def kSmallBuffer : ℕ := 4096

/-- `kMaxNumericSize`. -/
def kMaxNumericSize : ℕ := 48

/-- `logBuffer<kSmallBuffer>`, up to `m_cur`, which never gets to the end. -/
structure RecordBuffer where
  data : Str
  inside : data.length < kSmallBuffer

namespace RecordBuffer

/-- The buffer of a new record. -/
def empty : RecordBuffer := ⟨[], by decide⟩

/-- `avail`. -/
def avail (b : RecordBuffer) : ℕ := kSmallBuffer - b.data.length

/-- `append`. -/
def append (b : RecordBuffer) (src : Str) : RecordBuffer :=
  if h : src.length < b.avail then
    ⟨b.data ++ src, by rw [avail] at h; rw [List.length_append]; omega⟩
  else b

/-- A store behind the bytes `out`, which start at `m_cur`. -/
def store (b : RecordBuffer) (out : Str) (c : UInt8) : Option Str :=
  if b.data.length + out.length < kSmallBuffer then some (out ++ [c]) else none

/-- `add`, when the bytes stored from `m_cur` on are `out`. -/
def add (b : RecordBuffer) (out : Str) : Option RecordBuffer :=
  if h : (b.data ++ out).length < kSmallBuffer then some ⟨b.data ++ out, h⟩ else none

end RecordBuffer

/-! ### Integral types -/

/-- An integral type; `bool` has one bit, `__int128` the most. -/
structure IntegralType where
  signed : Bool
  bits : ℕ
  bits_pos : 0 < bits
  bits_le : bits ≤ 128

namespace IntegralType

/-- `int`. -/
def int : IntegralType := ⟨true, 32, by decide, by decide⟩

/-- The numbers of a type. -/
def InRange (t : IntegralType) (n : ℤ) : Prop :=
  if t.signed = true then -2 ^ (t.bits - 1) ≤ n ∧ n < 2 ^ (t.bits - 1) else 0 ≤ n ∧ n < 2 ^ t.bits

instance decidableInRange (t : IntegralType) (n : ℤ) : Decidable (t.InRange n) :=
  inferInstanceAs (Decidable (ite _ _ _))

/-- A value of a type. -/
structure Value (t : IntegralType) where
  val : ℤ
  inRange : t.InRange val

/-- The conversion of a number to a type. -/
def wrap (t : IntegralType) (n : ℤ) : ℤ :=
  if t.signed = true then n.bmod (2 ^ t.bits) else n % 2 ^ t.bits

end IntegralType

/-! ### `formatInter` -/

/-- `digits`. -/
def digits : Str :=
  ['9', '8', '7', '6', '5', '4', '3', '2', '1', '0', '1', '2', '3', '4', '5', '6', '7', '8', '9']

/-- `zero[idx]`, where `zero` is `digits + 9`. -/
def zero (idx : ℤ) : Option UInt8 := if 0 ≤ 9 + idx then digits[(9 + idx).toNat]? else none

namespace RecordBuffer

/-- The loop that stores the digits. -/
def digitLoop (b : RecordBuffer) (t : IntegralType) (num : ℤ) (out : Str) : Option Str :=
  match zero (IntegralType.int.wrap (num.tmod 10)) with
  | none => none
  | some c =>
    if b.data.length + out.length < kSmallBuffer then
      let num := t.wrap (num.tdiv 10)
      if num = 0 then some (out ++ [c]) else b.digitLoop t num (out ++ [c])
    else none
termination_by kSmallBuffer - (b.data.length + out.length)
decreasing_by
  rw [List.length_append, List.length_singleton]
  omega

/-- The sign behind the digits. -/
def storeSign (b : RecordBuffer) (negative : Bool) (out : Str) : Option Str :=
  if negative = true then b.store out '-' else some out

/-- `formatInter`. -/
def formatInter (b : RecordBuffer) (t : IntegralType) (num : t.Value) : Option RecordBuffer :=
  if kMaxNumericSize ≤ b.avail then do
    let out ← b.digitLoop t num.val []
    let out ← b.storeSign (num.val < 0) out
    let _ ← b.store out 0
    b.add out.reverse
  else some b

end RecordBuffer

/-! ### Ranges -/

namespace IntegralType

variable {t : IntegralType} {n : ℤ}

theorem InRange.natAbs_le (h : t.InRange n) : n.natAbs ≤ 2 ^ 128 := by
  have hpow : (2 : ℤ) ^ t.bits ≤ 2 ^ 128 := pow_le_pow_right₀ (by decide) t.bits_le
  have hhalf : (2 : ℤ) ^ (t.bits - 1) ≤ 2 ^ 128 :=
    pow_le_pow_right₀ (by decide) ((Nat.sub_le _ _).trans t.bits_le)
  unfold InRange at h
  split at h <;> omega

/-- A tenth of a number of a type is a number of the type. -/
theorem InRange.tdiv (h : t.InRange n) : t.InRange (n.tdiv 10) := by
  have hdiv : (n.tdiv 10).natAbs = n.natAbs / 10 := Int.natAbs_tdiv n 10
  have hhalf : (0 : ℤ) < 2 ^ (t.bits - 1) := pow_pos (by decide) _
  have hsign : 0 ≤ n → 0 ≤ n.tdiv 10 := fun hn => Int.tdiv_nonneg hn (by decide)
  unfold InRange at h ⊢
  split at h
  · rw [if_pos ‹_›]
    omega
  · rw [if_neg ‹_›]
    exact ⟨hsign h.1, by omega⟩

theorem wrap_of_inRange (h : t.InRange n) : t.wrap n = n := by
  have hbits : (2 : ℤ) ^ t.bits = 2 * 2 ^ (t.bits - 1) := by
    rw [← pow_succ', Nat.sub_add_cancel t.bits_pos]
  unfold InRange at h
  unfold wrap
  split at h
  · rw [if_pos ‹_›]
    refine Int.bmod_eq_of_le_mul_two ?_ ?_ <;> push_cast <;> omega
  · rw [if_neg ‹_›]
    exact Int.emod_eq_of_lt h.1 h.2

end IntegralType

/-! ### Digits -/

/-- The remainder of a number, which may be negative, finds its own digit. -/
theorem zero_of_natAbs {idx : ℤ} (h : idx.natAbs < 10) :
    zero idx = some (digitByte idx.natAbs) := by
  have hlow : -9 ≤ idx := by omega
  have hhigh : idx ≤ 9 := by omega
  interval_cases idx <;> rfl

/-- The numeral of a number from its last digit on. -/
def lowDigits (n : ℕ) : Str := (decimal n).reverse

theorem lowDigits_of_lt {n : ℕ} (h : n < 10) : lowDigits n = [digitByte n] := by
  interval_cases n <;> rfl

theorem lowDigits_of_le {n : ℕ} (h : n / 10 ≠ 0) :
    lowDigits n = digitByte (n % 10) :: lowDigits (n / 10) := by
  have hn : n ≠ 0 := fun h0 => h (by rw [h0])
  rw [lowDigits, lowDigits, decimal, decimal, if_neg hn, if_neg h,
    Nat.digits_def' (by decide) (Nat.pos_of_ne_zero hn), ← List.map_reverse, ← List.map_reverse,
    List.reverse_reverse, List.reverse_reverse, List.map_cons]

theorem length_decimal_le {n k : ℕ} (hk : 0 < k) (h : n < 10 ^ k) : (decimal n).length ≤ k := by
  unfold decimal
  split
  · exact hk
  · rw [List.length_map, List.length_reverse]
    exact (Nat.digits_length_le_iff (by decide) n).mpr h

namespace IntegralType.Value

variable {t : IntegralType} (num : t.Value)

theorem length_decimal_le : (decimal num.val.natAbs).length ≤ 39 :=
  Logger.length_decimal_le (by decide) (num.inRange.natAbs_le.trans_lt (by norm_num))

theorem length_decimalInt_le : (decimalInt num.val).length ≤ 40 := by
  have hlength := num.length_decimal_le
  unfold decimalInt
  split
  · rw [List.length_cons]
    omega
  · omega

end IntegralType.Value

/-- No numeral but that of zero begins with the digit zero. -/
theorem decimal_head {n : ℕ} (h : n ≠ 0) : (decimal n).head? ≠ some '0' := by
  rw [decimal, if_neg h, List.head?_map, List.head?_reverse,
    List.getLast?_eq_some_getLast (Nat.digits_ne_nil_iff_ne_zero.mpr h), Option.map_some]
  have hlast := Nat.getLast_digit_ne_zero 10 h
  have hlt := Nat.digits_lt_base (b := 10) (by decide) (List.getLast_mem
    (Nat.digits_ne_nil_iff_ne_zero.mpr h))
  intro hzero
  have hbyte := congrArg UInt8.toNat (Option.some.inj hzero)
  rw [toNat_digitByte _ hlt] at hbyte
  exact hlast (Nat.add_left_cancel hbyte)

namespace RecordBuffer

variable {b : RecordBuffer} {t : IntegralType}

/-- The digit the loop finds for a number. -/
theorem zero_wrap_tmod (num : ℤ) :
    zero (IntegralType.int.wrap (num.tmod 10)) = some (digitByte (num.natAbs % 10)) := by
  have hmod : (num.tmod 10).natAbs = num.natAbs % 10 := Int.natAbs_tmod num 10
  have hlt : num.natAbs % 10 < 10 := Nat.mod_lt _ (by decide)
  have hint : IntegralType.int.InRange (num.tmod 10) := by
    show -2 ^ 31 ≤ num.tmod 10 ∧ num.tmod 10 < 2 ^ 31
    omega
  rw [IntegralType.wrap_of_inRange hint, zero_of_natAbs (by omega), hmod]

/-- **The loop stores the numeral from its last digit on**, when the buffer has room for it. -/
theorem digitLoop_eq (num : ℤ) (out : Str) (hnum : t.InRange num)
    (hroom : b.data.length + out.length + (lowDigits num.natAbs).length ≤ kSmallBuffer) :
    b.digitLoop t num out = some (out ++ lowDigits num.natAbs) := by
  induction hm : num.natAbs using Nat.strong_induction_on generalizing num out with
  | _ m ih =>
    have hdiv : (num.tdiv 10).natAbs = m / 10 := by rw [Int.natAbs_tdiv, hm]; rfl
    rw [hm] at hroom
    rw [digitLoop, zero_wrap_tmod, hm, IntegralType.wrap_of_inRange hnum.tdiv]
    by_cases hlast : m / 10 = 0
    · -- The last turn, also for the number zero.
      have hlow := lowDigits_of_lt (n := m) (by omega)
      have hmod : m % 10 = m := Nat.mod_eq_of_lt (by omega)
      rw [hlow, List.length_singleton] at hroom
      have hzero : num.tdiv 10 = 0 := by omega
      rw [hlow, hmod]
      simp only [hzero, if_pos (show b.data.length + out.length < kSmallBuffer by omega), if_true]
    · have hlow := lowDigits_of_le hlast
      rw [hlow, List.length_cons] at hroom
      have hne : num.tdiv 10 ≠ 0 := by omega
      have hnext := ih (m / 10) (by omega) (num.tdiv 10) (out ++ [digitByte (m % 10)]) hnum.tdiv
        (by rw [hdiv, List.length_append, List.length_singleton]; omega) hdiv
      rw [hlow]
      simp only [hne, if_false, if_pos (show b.data.length + out.length < kSmallBuffer by omega)]
      rw [hnext, List.append_assoc, List.singleton_append]

theorem store_of_room {out : Str} (h : b.data.length + out.length < kSmallBuffer) (c : UInt8) :
    b.store out c = some (out ++ [c]) := if_pos h

theorem add_of_room (out : Str) (h : b.data.length + out.length < kSmallBuffer) :
    ∃ b', b.add out = some b' ∧ b'.data = b.data ++ out := by
  have hroom : (b.data ++ out).length < kSmallBuffer := by
    rw [List.length_append]
    exact h
  exact ⟨⟨b.data ++ out, hroom⟩, dif_pos hroom, rfl⟩

/-- The minus sign goes behind the digits, where the numeral begins. -/
theorem storeSign_eq (num : ℤ) (h : b.data.length + (lowDigits num.natAbs).length < kSmallBuffer) :
    b.storeSign (num < 0) (lowDigits num.natAbs) = some (decimalInt num).reverse := by
  by_cases hneg : num < 0
  · rw [storeSign, if_pos (decide_eq_true hneg), store_of_room h, decimalInt, if_pos hneg,
      List.reverse_cons]
    rfl
  · rw [storeSign, if_neg (by rw [decide_eq_true_eq]; exact hneg), decimalInt, if_neg hneg]
    rfl

/-- `formatInter` with 48 free bytes. -/
theorem formatInter_of_avail (hb : kMaxNumericSize ≤ b.avail) (num : t.Value) :
    ∃ b', b.formatInter t num = some b' ∧ b'.data = b.data ++ decimalInt num.val := by
  have hfree : b.data.length + 48 ≤ kSmallBuffer := by
    have hinside := b.inside
    rw [avail, kMaxNumericSize] at hb
    omega
  have hdigits := num.length_decimal_le
  have htext := num.length_decimalInt_le
  have hlow : (lowDigits num.val.natAbs).length = (decimal num.val.natAbs).length :=
    List.length_reverse
  have hrev : (decimalInt num.val).reverse.length = (decimalInt num.val).length :=
    List.length_reverse
  have hloop := digitLoop_eq (b := b) num.val [] num.inRange (by rw [List.length_nil]; omega)
  rw [List.nil_append] at hloop
  obtain ⟨b', hadd, hdata⟩ := add_of_room (b := b) (decimalInt num.val) (by omega)
  refine ⟨b', ?_, hdata⟩
  rw [formatInter, if_pos hb, hloop, Option.bind_eq_bind, Option.bind_some,
    storeSign_eq num.val (by omega), Option.bind_some, store_of_room (by omega), Option.bind_some,
    List.reverse_reverse]
  exact hadd

end RecordBuffer

/-- **Every integer is printed in decimal**: with 48 free bytes `formatInter` appends the numeral of
every value of every integral type, without leading zeros and behind a `-` if it is negative; no
digit is taken from outside the table, and nothing is stored outside the buffer. -/
theorem formatInter_decimal (t : IntegralType) (num : t.Value) (b : RecordBuffer)
    (hb : kMaxNumericSize ≤ b.avail) :
    ∃ b', b.formatInter t num = some b' ∧ b'.data = b.data ++ decimalInt num.val ∧
      (num.val ≠ 0 → (decimal num.val.natAbs).head? ≠ some '0') := by
  obtain ⟨b', hrun, hdata⟩ := RecordBuffer.formatInter_of_avail hb num
  exact ⟨b', hrun, hdata, fun hne => decimal_head (Int.natAbs_ne_zero.mpr hne)⟩

/-- The least `long`. -/
def longMin : IntegralType.Value ⟨true, 64, by decide, by decide⟩ :=
  ⟨-9223372036854775808, by decide⟩

theorem formatInter_decimal_longMin :
    ∃ b', RecordBuffer.empty.formatInter _ longMin = some b' ∧
      b'.data = [] ++ decimalInt (-9223372036854775808) ∧
      ((-9223372036854775808 : ℤ) ≠ 0 →
        (decimal (Int.natAbs (-9223372036854775808))).head? ≠ some '0') :=
  formatInter_decimal _ longMin RecordBuffer.empty (by decide)

end Rojcpp.Logger
