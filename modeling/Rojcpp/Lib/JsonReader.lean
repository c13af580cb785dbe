import Mathlib.Algebra.Field.Rat
import Mathlib.Tactic.Common
import Rojcpp.Lib.Decimal

/-!
# Reading JSON

A reader for the JSON of RFC 8259 over bytes, by recursive descent: white space between all tokens,
strings with their escapes, numbers with fraction and exponent, literals, arrays and objects, and
nothing behind the value.  A number is the rational it denotes.  A byte above 127 is part of a
character outside ASCII and is not looked into, and `\u` escapes stay code units.

`Reads t v` says that a text `t` is read as `v` in front of anything that does not go on with a
number.  There is one rule for each kind of text a program prints: integers, arrays of texts that
are read, and objects of them under plain names.
-/

namespace Rojcpp.Lib.JsonReader

/-! ### Values -/

/-- A character of a string: a byte of the text, or the code unit of a `\u` escape. -/
inductive JsonChar where
  | byte (c : UInt8)
  | unit (u : ℕ)
  deriving DecidableEq, Repr

/-- A value. -/
inductive JsonValue where
  | null
  | bool (b : Bool)
  | number (q : ℚ)
  | string (s : List JsonChar)
  | array (values : List JsonValue)
  | object (members : List (List JsonChar × JsonValue))

/-! ### Tokens -/

/-- White space. -/
def isBlank (c : UInt8) : Bool := c == 32 || c == 9 || c == 10 || c == 13

/-- The text behind white space. -/
def skipBlanks (s : List UInt8) : List UInt8 := s.dropWhile isBlank

/-- The value of a hexadecimal digit. -/
def hexVal (c : UInt8) : Option ℕ :=
  if isDigit c then some (digitVal c)
  else if 65 ≤ c && c ≤ 70 then some (c.toNat - 55)
  else if 97 ≤ c && c ≤ 102 then some (c.toNat - 87)
  else none

/-- The byte a short escape stands for. -/
def escapeByte (c : UInt8) : Option UInt8 :=
  if c = 34 ∨ c = 92 ∨ c = 47 then some c
  else if c = 98 then some 8
  else if c = 102 then some 12
  else if c = 110 then some 10
  else if c = 114 then some 13
  else if c = 116 then some 9
  else none

/-- Where in a string the reader is: between two characters, behind a backslash, or in a `\u` escape
with so many digits to read behind the next one. -/
inductive StringState where
  | plain
  | escape
  | hex (more u : ℕ)
  deriving DecidableEq, Repr

/-- A string from behind its opening quote on, and the text behind its closing quote. -/
def readString : StringState → List UInt8 → Option (List JsonChar × List UInt8)
  | _, [] => none
  | .plain, c :: s =>
    if c = 34 then some ([], s)
    else if c = 92 then readString .escape s
    else if c < 32 then none
    else (readString .plain s).map fun r => (.byte c :: r.1, r.2)
  | .escape, c :: s =>
    if c = 117 then readString (.hex 3 0) s
    else
      match escapeByte c with
      | none => none
      | some b => (readString .plain s).map fun r => (.byte b :: r.1, r.2)
  | .hex more u, c :: s =>
    match hexVal c with
    | none => none
    | some d =>
      match more with
      | 0 => (readString .plain s).map fun r => (.unit (u * 16 + d) :: r.1, r.2)
      | more + 1 => readString (.hex more (u * 16 + d)) s

/-- At least one digit. -/
def readDigits (s : List UInt8) : Option (List UInt8 × List UInt8) :=
  if s.takeWhile isDigit = [] then none else some (s.takeWhile isDigit, s.dropWhile isDigit)

/-- The digits in front of the point: no zero in front of others. -/
def readInt (s : List UInt8) : Option (List UInt8 × List UInt8) :=
  if s.head? = some 48 then some ([48], s.tail) else readDigits s

/-- The digits behind the point, if there is one. -/
def readFraction (s : List UInt8) : Option (List UInt8 × List UInt8) :=
  if s.head? = some 46 then readDigits s.tail else some ([], s)

/-- The sign of an exponent. -/
def readSign (s : List UInt8) : Bool × List UInt8 :=
  if s.head? = some 45 then (true, s.tail)
  else if s.head? = some 43 then (false, s.tail)
  else (false, s)

/-- The exponent, if there is one. -/
def readExponent (s : List UInt8) : Option (ℤ × List UInt8) :=
  if s.head? = some 101 ∨ s.head? = some 69 then
    (readDigits (readSign s.tail).2).map fun r =>
      (if (readSign s.tail).1 then -(digitsValue 0 r.1 : ℤ) else digitsValue 0 r.1, r.2)
  else some (0, s)

/-- What a number denotes. -/
def numberValue (minus : Bool) (int fraction : List UInt8) (exponent : ℤ) : ℚ :=
  (if minus then -1 else 1) * (digitsValue 0 (int ++ fraction) : ℚ) *
    10 ^ (exponent - fraction.length)

/-- A number. -/
def readNumber (s : List UInt8) : Option (ℚ × List UInt8) := do
  let minus := s.head? == some 45
  let int ← readInt (if minus then s.tail else s)
  let fraction ← readFraction int.2
  let exponent ← readExponent fraction.2
  return (numberValue minus int.1 fraction.1 exponent.1, exponent.2)

/-- A literal. -/
def readLiteral (word : List UInt8) (v : JsonValue) (s : List UInt8) :
    Option (JsonValue × List UInt8) :=
  if word.isPrefixOf s then some (v, s.drop word.length) else none

/-! ### Values and what they are made of -/

mutual

/-- A value, and the text behind it. -/
def readValue : ℕ → List UInt8 → Option (JsonValue × List UInt8)
  | 0, _ => none
  | n + 1, s =>
    if s.head? = some 123 then
      let t := skipBlanks s.tail
      if t.head? = some 125 then some (.object [], t.tail)
      else (readMembers n t).map fun r => (.object r.1, r.2)
    else if s.head? = some 91 then
      let t := skipBlanks s.tail
      if t.head? = some 93 then some (.array [], t.tail)
      else (readElements n t).map fun r => (.array r.1, r.2)
    else if s.head? = some 34 then (readString .plain s.tail).map fun r => (.string r.1, r.2)
    else if s.head? = some 116 then readLiteral [116, 114, 117, 101] (.bool true) s
    else if s.head? = some 102 then readLiteral [102, 97, 108, 115, 101] (.bool false) s
    else if s.head? = some 110 then readLiteral [110, 117, 108, 108] .null s
    else (readNumber s).map fun r => (.number r.1, r.2)

/-- The values of an array from the first one on, and the text behind its bracket. -/
def readElements : ℕ → List UInt8 → Option (List JsonValue × List UInt8)
  | 0, _ => none
  | n + 1, s =>
    match readValue n s with
    | none => none
    | some (v, rest) =>
      let t := skipBlanks rest
      if t.head? = some 93 then some ([v], t.tail)
      else if t.head? = some 44 then
        (readElements n (skipBlanks t.tail)).map fun r => (v :: r.1, r.2)
      else none

/-- The members of an object from the first one on, and the text behind its brace. -/
def readMembers : ℕ → List UInt8 → Option (List (List JsonChar × JsonValue) × List UInt8)
  | 0, _ => none
  | n + 1, s =>
    if s.head? = some 34 then
      match readString .plain s.tail with
      | none => none
      | some (name, behind) =>
        let u := skipBlanks behind
        if u.head? = some 58 then
          match readValue n (skipBlanks u.tail) with
          | none => none
          | some (v, rest) =>
            let t := skipBlanks rest
            if t.head? = some 125 then some ([(name, v)], t.tail)
            else if t.head? = some 44 then
              (readMembers n (skipBlanks t.tail)).map fun r => ((name, v) :: r.1, r.2)
            else none
        else none
    else none

end

theorem readValue_array (n : ℕ) (s : List UInt8) :
    readValue (n + 1) (91 :: s) =
      if (skipBlanks s).head? = some 93 then some (.array [], (skipBlanks s).tail)
      else (readElements n (skipBlanks s)).map fun r => (.array r.1, r.2) := by
  rw [readValue]
  rfl

theorem readValue_object (n : ℕ) (s : List UInt8) :
    readValue (n + 1) (123 :: s) =
      if (skipBlanks s).head? = some 125 then some (.object [], (skipBlanks s).tail)
      else (readMembers n (skipBlanks s)).map fun r => (.object r.1, r.2) := by
  rw [readValue]
  rfl

/-- A whole text: one value with white space around it. -/
def readJson (s : List UInt8) : Option JsonValue :=
  match readValue (s.length + 1) (skipBlanks s) with
  | none => none
  | some (v, rest) => if skipBlanks rest = [] then some v else none

/-! ### Printed texts -/

/-- A byte that would go on with a number. -/
def isNumberChar (c : UInt8) : Bool := isDigit c || c == 46 || c == 69 || c == 101

/-- A text that is read as `v` in front of anything that does not go on with a number. -/
structure Reads (t : List UInt8) (v : JsonValue) : Prop where
  starts : ∃ c s, t = c :: s ∧ isBlank c = false ∧ c ≠ 93
  value : ∀ m rest, t.length ≤ m → (∀ c ∈ rest.head?, isNumberChar c = false) →
    readValue m (t ++ rest) = some (v, rest)

/-- White space is skipped up to something else. -/
theorem skipBlanks_cons {c : UInt8} (s : List UInt8) (hc : isBlank c = false) :
    skipBlanks (c :: s) = c :: s := List.dropWhile_cons_of_neg (by rw [hc]; decide)

theorem Reads.skip {t : List UInt8} {v : JsonValue} (h : Reads t v) (rest : List UInt8) :
    skipBlanks (t ++ rest) = t ++ rest := by
  obtain ⟨c, s, hcs, hc, -⟩ := h.starts
  rw [hcs, List.cons_append, skipBlanks_cons _ hc]

/-! #### Integers -/

theorem head_decimal {n : ℕ} (hn : n ≠ 0) : (decimal n).head? ≠ some 48 := by
  rw [decimal, if_neg hn, List.head?_map, List.head?_reverse]
  have hne : Nat.digits 10 n ≠ [] := Nat.digits_ne_nil_iff_ne_zero.mpr hn
  rw [List.getLast?_eq_getLast_of_ne_nil hne, Option.map_some]
  intro h
  have hlt : (Nat.digits 10 n).getLast hne < 10 :=
    Nat.digits_lt_base (by decide) (List.getLast_mem hne)
  have hzero : (Nat.digits 10 n).getLast hne ≠ 0 := Nat.getLast_digit_ne_zero 10 hn
  have hbyte := toNat_digitByte _ hlt
  rw [Option.some.injEq] at h
  rw [h] at hbyte
  have h48 : (48 : UInt8).toNat = 48 := rfl
  omega

theorem decimal_cons (n : ℕ) : ∃ d s, decimal n = d :: s ∧ isDigit d = true := by
  obtain ⟨d, s, hds⟩ := List.exists_cons_of_ne_nil (decimal_ne_nil n)
  exact ⟨d, s, hds, decimal_isDigit n d (by rw [hds]; exact List.mem_cons_self)⟩

/-- What ends a number ends its digits. -/
theorem not_digit_of_end {rest : List UInt8} (h : ∀ c ∈ rest.head?, isNumberChar c = false) :
    ∀ c ∈ rest.head?, isDigit c = false := by
  intro c hc
  have hnumber := h c hc
  rw [isNumberChar, Bool.or_assoc, Bool.or_assoc, Bool.or_eq_false_iff] at hnumber
  exact hnumber.1

theorem head_ne_of_end {rest : List UInt8} (h : ∀ c ∈ rest.head?, isNumberChar c = false)
    {c : UInt8} (hc : isNumberChar c = true) : rest.head? ≠ some c := by
  intro hhead
  rw [h c hhead] at hc
  cases hc

/-- The digits of a number are read back. -/
theorem readInt_decimal (n : ℕ) {rest : List UInt8}
    (hrest : ∀ c ∈ rest.head?, isNumberChar c = false) :
    readInt (decimal n ++ rest) = some (decimal n, rest) := by
  obtain ⟨d, s, hds, -⟩ := decimal_cons n
  by_cases hn : n = 0
  · rw [hn]
    rfl
  · have hhead : (decimal n ++ rest).head? ≠ some 48 := by
      have h := head_decimal hn
      rw [hds] at h ⊢
      exact h
    rw [readInt, if_neg hhead, readDigits,
      takeWhile_digits _ _ (decimal_isDigit n) (not_digit_of_end hrest),
      dropWhile_digits _ _ (decimal_isDigit n) (not_digit_of_end hrest),
      if_neg (decimal_ne_nil n)]

theorem numberValue_int (minus : Bool) (n : ℕ) :
    numberValue minus (decimal n) [] 0 = if minus then -(n : ℚ) else n := by
  rw [numberValue, List.append_nil, digitsValue_decimal]
  cases minus with
  | false => simp
  | true => simp

/-- A printed integer, read as a number. -/
theorem readNumber_decimalInt (z : ℤ) {rest : List UInt8}
    (hrest : ∀ c ∈ rest.head?, isNumberChar c = false) :
    readNumber (decimalInt z ++ rest) = some ((z : ℚ), rest) := by
  have hint := readInt_decimal z.natAbs hrest
  have hfraction : readFraction rest = some ([], rest) := if_neg (head_ne_of_end hrest rfl)
  have hexponent : readExponent rest = some (0, rest) :=
    if_neg fun h => h.elim (head_ne_of_end hrest rfl) (head_ne_of_end hrest rfl)
  have hnumber : ∀ minus : Bool,
      ((readInt (decimal z.natAbs ++ rest)).bind fun int =>
        (readFraction int.2).bind fun fraction => (readExponent fraction.2).bind fun exponent =>
          some (numberValue minus int.1 fraction.1 exponent.1, exponent.2)) =
      some (if minus then -(z.natAbs : ℚ) else z.natAbs, rest) := by
    intro minus
    rw [hint, Option.bind_some, hfraction, Option.bind_some, hexponent, Option.bind_some,
      numberValue_int]
  by_cases hz : z < 0
  · have hcast : -(z.natAbs : ℚ) = z := by
      rw [Nat.cast_natAbs, abs_of_neg hz]
      push_cast
      ring
    rw [decimalInt, if_pos hz, ← hcast]
    exact hnumber true
  · have hcast : (z.natAbs : ℚ) = z := by
      rw [Nat.cast_natAbs, abs_of_nonneg (Int.not_lt.mp hz)]
    obtain ⟨d, s, hds, hd⟩ := decimal_cons z.natAbs
    have hminus : ((decimal z.natAbs ++ rest).head? == some 45) = false := by
      rw [hds]
      refine beq_eq_false_iff_ne.mpr fun h => ?_
      cases h
      exact absurd hd (by decide)
    rw [decimalInt, if_neg hz, ← hcast, readNumber, hminus]
    exact hnumber false

/-- **Integers.** -/
theorem reads_int (z : ℤ) : Reads (decimalInt z) (.number z) := by
  obtain ⟨c, s, hcs⟩ := List.exists_cons_of_ne_nil (decimalInt_ne_nil z)
  have hc : isDigit c = true ∨ c = 45 :=
    decimalInt_mem (z := z) (by rw [hcs]; exact List.mem_cons_self)
  have hother : ∀ d : UInt8, isDigit d = false → d ≠ 45 → c ≠ d := by
    rintro d hdigit hminus rfl
    rcases hc with h | h
    · rw [hdigit] at h
      cases h
    · exact hminus h
  refine ⟨⟨c, s, hcs, ?_, hother 93 rfl (by decide)⟩, fun m rest hm hrest => ?_⟩
  · rw [isBlank, Bool.or_eq_false_iff, Bool.or_eq_false_iff, Bool.or_eq_false_iff,
      beq_eq_false_iff_ne, beq_eq_false_iff_ne, beq_eq_false_iff_ne, beq_eq_false_iff_ne]
    exact ⟨⟨⟨hother 32 rfl (by decide), hother 9 rfl (by decide)⟩, hother 10 rfl (by decide)⟩,
      hother 13 rfl (by decide)⟩
  · have hpos : 1 ≤ m := Nat.le_trans (List.length_pos_iff.mpr (decimalInt_ne_nil z)) hm
    obtain ⟨m, rfl⟩ := Nat.exists_eq_add_of_le' hpos
    have hhead : ∀ d : UInt8, isDigit d = false → d ≠ 45 →
        (decimalInt z ++ rest).head? ≠ some d := by
      intro d hdigit hminus h
      rw [hcs] at h
      exact hother d hdigit hminus (Option.some.inj h)
    rw [readValue, if_neg (hhead 123 rfl (by decide)), if_neg (hhead 91 rfl (by decide)),
      if_neg (hhead 34 rfl (by decide)), if_neg (hhead 116 rfl (by decide)),
      if_neg (hhead 102 rfl (by decide)), if_neg (hhead 110 rfl (by decide)),
      readNumber_decimalInt z hrest]
    rfl

/-! #### Arrays -/

/-- Texts with commas between them. -/
def commaSep : List (List UInt8) → List UInt8
  | [] => []
  | [t] => t
  | t :: ts => t ++ 44 :: commaSep ts

/-- The first text is in front. -/
theorem commaSep_cons (t : List UInt8) (ts : List (List UInt8)) :
    ∃ u, commaSep (t :: ts) = t ++ u := by
  cases ts with
  | nil => exact ⟨[], (List.append_nil t).symm⟩
  | cons t' ts => exact ⟨44 :: commaSep (t' :: ts), rfl⟩

/-- An array of texts. -/
def arrayText (ts : List (List UInt8)) : List UInt8 := 91 :: commaSep ts ++ [93]

/-- The elements of an array up to its bracket. -/
theorem readElements_commaSep (l : List (List UInt8 × JsonValue)) (hne : l ≠ [])
    (hl : ∀ p ∈ l, Reads p.1 p.2) (rest : List UInt8) :
    ∀ m, (commaSep (l.map Prod.fst)).length < m →
      readElements m (commaSep (l.map Prod.fst) ++ 93 :: rest) = some (l.map Prod.snd, rest) := by
  induction l with
  | nil => exact absurd rfl hne
  | cons p l ih =>
    intro m hm
    obtain ⟨m, rfl⟩ := Nat.exists_eq_add_of_le' (Nat.zero_lt_of_lt hm)
    have hp := hl p List.mem_cons_self
    cases l with
    | nil =>
      have hvalue := hp.value m (93 :: rest) (Nat.lt_succ_iff.mp hm) fun c hc => by cases hc; rfl
      show readElements (m + 1) (p.1 ++ 93 :: rest) = _
      rw [readElements, hvalue]
      rfl
    | cons q l =>
      have hq := hl q (List.mem_cons_of_mem _ List.mem_cons_self)
      have hlength : (commaSep ((p :: q :: l).map Prod.fst)).length =
          p.1.length + ((commaSep ((q :: l).map Prod.fst)).length + 1) := List.length_append
      have htail := ih (List.cons_ne_nil _ _) (fun r hr => hl r (List.mem_cons_of_mem _ hr)) m
        (by omega)
      have hskip : skipBlanks (commaSep ((q :: l).map Prod.fst) ++ 93 :: rest) =
          commaSep ((q :: l).map Prod.fst) ++ 93 :: rest := by
        obtain ⟨u, hu⟩ := commaSep_cons q.1 (l.map Prod.fst)
        rw [List.map_cons, hu, List.append_assoc]
        exact hq.skip _
      have hvalue := hp.value m (44 :: (commaSep ((q :: l).map Prod.fst) ++ 93 :: rest))
        (by omega) fun c hc => by cases hc; rfl
      show readElements (m + 1) ((p.1 ++ 44 :: commaSep ((q :: l).map Prod.fst)) ++ 93 :: rest) = _
      rw [List.append_assoc, List.cons_append, readElements, hvalue]
      show (readElements m (skipBlanks (commaSep ((q :: l).map Prod.fst) ++ 93 :: rest))).map _ = _
      rw [hskip, htail]
      rfl

/-- **Arrays** of texts that are read. -/
theorem reads_array (l : List (List UInt8 × JsonValue)) (hl : ∀ p ∈ l, Reads p.1 p.2) :
    Reads (arrayText (l.map Prod.fst)) (.array (l.map Prod.snd)) := by
  refine ⟨⟨91, _, rfl, rfl, by decide⟩, fun m rest hm _ => ?_⟩
  rw [arrayText, List.length_append, List.length_cons, List.length_singleton] at hm
  obtain ⟨m, rfl⟩ := Nat.exists_eq_add_of_le' (Nat.zero_lt_of_lt hm)
  have htext : arrayText (l.map Prod.fst) ++ rest =
      91 :: (commaSep (l.map Prod.fst) ++ 93 :: rest) := by
    rw [arrayText, List.append_assoc]
    rfl
  rw [htext, readValue_array]
  cases l with
  | nil => rfl
  | cons p l =>
    obtain ⟨c, s, hcs, -, hbracket⟩ := (hl p List.mem_cons_self).starts
    have helements := readElements_commaSep (p :: l) (List.cons_ne_nil _ _) hl rest m (by omega)
    obtain ⟨u, hu⟩ := commaSep_cons p.1 (l.map Prod.fst)
    rw [List.map_cons, hu, List.append_assoc] at helements ⊢
    have hhead : (p.1 ++ (u ++ 93 :: rest)).head? ≠ some 93 := by
      rw [hcs]
      exact fun h => hbracket (Option.some.inj h)
    rw [(hl p List.mem_cons_self).skip, if_neg hhead, helements]
    rfl

/-! #### Objects -/

/-- A name without escapes. -/
def PlainName (name : List UInt8) : Prop := ∀ c ∈ name, 32 ≤ c ∧ c ≠ 34 ∧ c ≠ 92

/-- A member with its name. -/
def memberText (m : List UInt8 × List UInt8) : List UInt8 := 34 :: m.1 ++ 34 :: 58 :: m.2

/-- An object of texts under names. -/
def objectText (ms : List (List UInt8 × List UInt8)) : List UInt8 :=
  123 :: commaSep (ms.map memberText) ++ [125]

theorem readString_plain {name : List UInt8} (h : PlainName name) (rest : List UInt8) :
    readString .plain (name ++ 34 :: rest) = some (name.map .byte, rest) := by
  induction name with
  | nil => rfl
  | cons c name ih =>
    obtain ⟨⟨hlow, hquote, hslash⟩, hname⟩ := List.forall_mem_cons.mp h
    rw [List.cons_append, readString, if_neg hquote, if_neg hslash, if_neg (UInt8.not_lt.mpr hlow),
      ih hname]
    rfl

/-- One member of an object, with what is behind it. -/
theorem readMembers_member {name t : List UInt8} {v : JsonValue} (hname : PlainName name)
    (ht : Reads t v) {m : ℕ} (hm : t.length ≤ m) {c : UInt8} (rest : List UInt8)
    (hc : isNumberChar c = false) (hblank : isBlank c = false) :
    readMembers (m + 1) (memberText (name, t) ++ c :: rest) =
      if c = 125 then some ([(name.map .byte, v)], rest)
      else if c = 44 then
        (readMembers m (skipBlanks rest)).map fun r => ((name.map .byte, v) :: r.1, r.2)
      else none := by
  have htext : memberText (name, t) ++ c :: rest =
      34 :: (name ++ 34 :: 58 :: (t ++ c :: rest)) := by
    show 34 :: ((name ++ 34 :: 58 :: t) ++ c :: rest) = _
    rw [List.append_assoc]
    rfl
  have hvalue := ht.value m (c :: rest) hm fun d hd => by cases hd; exact hc
  rw [htext, readMembers]
  show (match readString .plain (name ++ 34 :: 58 :: (t ++ c :: rest)) with
    | none => none
    | some (name, behind) => _) = _
  rw [readString_plain hname]
  show (match readValue m (skipBlanks (t ++ c :: rest)) with
    | none => none
    | some (v, rest) => _) = _
  rw [ht.skip, hvalue]
  show (if (skipBlanks (c :: rest)).head? = some 125 then _ else _) = _
  rw [skipBlanks_cons rest hblank]
  show (if some c = some 125 then some ([(name.map JsonChar.byte, v)], rest)
    else if some c = some 44 then _ else none) = _
  exact if_congr Option.some_inj rfl (if_congr Option.some_inj rfl rfl)

/-- The members of an object up to its brace. -/
theorem readMembers_commaSep (l : List (List UInt8 × List UInt8 × JsonValue)) (hne : l ≠ [])
    (hl : ∀ p ∈ l, PlainName p.1 ∧ Reads p.2.1 p.2.2) (rest : List UInt8) :
    ∀ m, (commaSep (l.map fun p => memberText (p.1, p.2.1))).length < m →
      readMembers m (commaSep (l.map fun p => memberText (p.1, p.2.1)) ++ 125 :: rest) =
        some (l.map fun p => (p.1.map .byte, p.2.2), rest) := by
  induction l with
  | nil => exact absurd rfl hne
  | cons p l ih =>
    intro m hm
    obtain ⟨m, rfl⟩ := Nat.exists_eq_add_of_le' (Nat.zero_lt_of_lt hm)
    obtain ⟨hname, hp⟩ := hl p List.mem_cons_self
    have hmember : p.2.1.length ≤ (memberText (p.1, p.2.1)).length := by
      show p.2.1.length ≤ (34 :: p.1 ++ ([34, 58] ++ p.2.1)).length
      rw [List.length_append, List.length_append]
      omega
    cases l with
    | nil =>
      have hlast : (memberText (p.1, p.2.1)).length < m + 1 := hm
      show readMembers (m + 1) (memberText (p.1, p.2.1) ++ 125 :: rest) = _
      rw [readMembers_member hname hp (by omega) rest rfl rfl, if_pos rfl]
      rfl
    | cons q l =>
      have hlength : (commaSep ((p :: q :: l).map fun p => memberText (p.1, p.2.1))).length =
          (memberText (p.1, p.2.1)).length +
            ((commaSep ((q :: l).map fun p => memberText (p.1, p.2.1))).length + 1) :=
        List.length_append
      have htail := ih (List.cons_ne_nil _ _) (fun r hr => hl r (List.mem_cons_of_mem _ hr)) m
        (by omega)
      have hskip : ∀ u, skipBlanks (commaSep ((q :: l).map fun p => memberText (p.1, p.2.1)) ++ u) =
          commaSep ((q :: l).map fun p => memberText (p.1, p.2.1)) ++ u := by
        intro u
        obtain ⟨w, hw⟩ := commaSep_cons (memberText (q.1, q.2.1))
          (l.map fun p => memberText (p.1, p.2.1))
        rw [List.map_cons, hw, List.append_assoc]
        exact skipBlanks_cons _ rfl
      show readMembers (m + 1) ((memberText (p.1, p.2.1) ++
        44 :: commaSep ((q :: l).map fun p => memberText (p.1, p.2.1))) ++ 125 :: rest) = _
      rw [List.append_assoc, List.cons_append,
        readMembers_member hname hp (by omega) _ rfl rfl, if_neg (by decide), if_pos rfl, hskip,
        htail]
      rfl

/-- **Objects** of texts that are read. -/
theorem reads_object (l : List (List UInt8 × List UInt8 × JsonValue))
    (hl : ∀ p ∈ l, PlainName p.1 ∧ Reads p.2.1 p.2.2) :
    Reads (objectText (l.map fun p => (p.1, p.2.1)))
      (.object (l.map fun p => (p.1.map .byte, p.2.2))) := by
  refine ⟨⟨123, _, rfl, rfl, by decide⟩, fun m rest hm _ => ?_⟩
  have hmembers : (commaSep (l.map fun p => memberText (p.1, p.2.1))).length + 2 ≤ m := by
    rw [objectText, List.map_map, List.length_append, List.length_cons] at hm
    exact hm
  obtain ⟨m, rfl⟩ := Nat.exists_eq_add_of_le' (Nat.zero_lt_of_lt hmembers)
  have htext : objectText (l.map fun p => (p.1, p.2.1)) ++ rest =
      123 :: (commaSep (l.map fun p => memberText (p.1, p.2.1)) ++ 125 :: rest) := by
    rw [objectText, List.append_assoc, List.map_map]
    rfl
  rw [htext, readValue_object]
  cases l with
  | nil => rfl
  | cons p l =>
    have hmembers := readMembers_commaSep (p :: l) (List.cons_ne_nil _ _) hl rest m (by omega)
    obtain ⟨u, hu⟩ := commaSep_cons (memberText (p.1, p.2.1))
      (l.map fun p => memberText (p.1, p.2.1))
    rw [List.map_cons, hu, List.append_assoc] at hmembers ⊢
    have hskip : skipBlanks (memberText (p.1, p.2.1) ++ (u ++ 125 :: rest)) =
        memberText (p.1, p.2.1) ++ (u ++ 125 :: rest) := skipBlanks_cons _ rfl
    have hhead : (memberText (p.1, p.2.1) ++ (u ++ 125 :: rest)).head? ≠ some 125 :=
      fun h => absurd (Option.some.inj h) (by decide)
    rw [hskip, if_neg hhead, hmembers]
    rfl

/-! #### Whole texts -/

/-- **A text that is read is accepted as a whole.** -/
theorem readJson_eq {t : List UInt8} {v : JsonValue} (h : Reads t v) : readJson t = some v := by
  have hskip := h.skip []
  have hvalue := h.value (t.length + 1) [] (Nat.le_succ _) fun c hc => by cases hc
  rw [List.append_nil] at hskip hvalue
  rw [readJson, hskip, hvalue]
  rfl

end Rojcpp.Lib.JsonReader
