import Rojcpp.Json.Layout

/-!
# JSON texts

The grammar of JSON over bytes: strings with their escapes, numbers, the three literals, and nested
arrays and objects with white space between all tokens.  A byte above 127 is part of a character
outside ASCII and is not looked into.

The machine of `parse` does not know this grammar.  What it can rely on is `ValueText.shape`: a
value is a string, a run of characters that no other value starts with, or a text in brackets or in
braces.
-/

namespace Rojcpp.Json

open Rojcpp.Lib

/-! ### Tokens -/

/-- White space between two tokens. -/
def Ws (s : Str) : Prop := ∀ c ∈ s, isBlankChar c = true

/-- A digit of a `\u` escape. -/
def isHexDigit (c : UInt8) : Bool := isDigit c || (65 ≤ c && c ≤ 70) || (97 ≤ c && c ≤ 102)

/-- A character that makes an escape of its own behind a backslash. -/
def isEscapeChar (c : UInt8) : Bool := (ascii "\"\\/bfnrt").contains c

/-- A string without its quotes. -/
inductive StringBody : Str → Prop
  | nil : StringBody []
  | plain {c : UInt8} {t : Str} :
      32 ≤ c → c ≠ dquote → c ≠ bslash → StringBody t → StringBody (c :: t)
  | escape {c : UInt8} {t : Str} :
      isEscapeChar c = true → StringBody t → StringBody (bslash :: c :: t)
  | unicode {c d e f : UInt8} {t : Str} :
      isHexDigit c = true → isHexDigit d = true → isHexDigit e = true → isHexDigit f = true →
      StringBody t → StringBody (bslash :: 117 :: c :: d :: e :: f :: t)

/-- At least one digit. -/
def Digits (s : Str) : Prop := s ≠ [] ∧ ∀ c ∈ s, isDigit c = true

/-- The digits in front of the point: no zero in front of others. -/
def IntPart (s : Str) : Prop := Digits s ∧ (s.head? = some 48 → s = [48])

/-- The point and the digits behind it, if there is one. -/
def FracPart (s : Str) : Prop := s = [] ∨ ∃ ds, s = 46 :: ds ∧ Digits ds

/-- The exponent, if there is one. -/
def ExpPart (s : Str) : Prop :=
  s = [] ∨ ∃ e sign ds, s = e :: (sign ++ ds) ∧ (e = 69 ∨ e = 101) ∧
    (sign = [] ∨ sign = [43] ∨ sign = [45]) ∧ Digits ds

/-- A number. -/
def NumberText (s : Str) : Prop :=
  ∃ sign int frac exp, s = sign ++ (int ++ (frac ++ exp)) ∧ (sign = [] ∨ sign = [45]) ∧
    IntPart int ∧ FracPart frac ∧ ExpPart exp

/-- `true`, `false` and `null`. -/
def LiteralText (s : Str) : Prop := s = ascii "true" ∨ s = ascii "false" ∨ s = ascii "null"

/-! ### Values -/

mutual

/-- A value. -/
inductive ValueText : Str → Prop
  | string {body : Str} : StringBody body → ValueText (quoted body)
  | number {s : Str} : NumberText s → ValueText s
  | literal {s : Str} : LiteralText s → ValueText s
  | emptyArray {ws : Str} : Ws ws → ValueText (lbracket :: ws ++ [rbracket])
  | array {s : Str} : ElementsText s → ValueText (lbracket :: s ++ [rbracket])
  | emptyObject {ws : Str} : Ws ws → ValueText (lbrace :: ws ++ [rbrace])
  | object {s : Str} : MembersText s → ValueText (lbrace :: s ++ [rbrace])

/-- The values of an array, with commas between them. -/
inductive ElementsText : Str → Prop
  | one {ws v ws' : Str} : Ws ws → ValueText v → Ws ws' → ElementsText (ws ++ (v ++ ws'))
  | cons {ws v ws' s : Str} : Ws ws → ValueText v → Ws ws' → ElementsText s →
      ElementsText (ws ++ (v ++ (ws' ++ comma :: s)))

/-- The members of an object, with commas between them. -/
inductive MembersText : Str → Prop
  | one {ws name ws₁ ws₂ v ws₃ : Str} : Ws ws → StringBody name → Ws ws₁ → Ws ws₂ →
      ValueText v → Ws ws₃ →
      MembersText (ws ++ (quoted name ++ (ws₁ ++ colon :: (ws₂ ++ (v ++ ws₃)))))
  | cons {ws name ws₁ ws₂ v ws₃ s : Str} : Ws ws → StringBody name → Ws ws₁ → Ws ws₂ →
      ValueText v → Ws ws₃ → MembersText s →
      MembersText (ws ++ (quoted name ++ (ws₁ ++ colon :: (ws₂ ++ (v ++ (ws₃ ++ comma :: s))))))

end

/-! ### What a value looks like -/

/-- Every quote inside a string stands behind a backslash. -/
theorem StringBody.guarded {body : Str} (h : StringBody body) : ∀ prev, Guarded prev body := by
  have hslash : bslash ≠ dquote := by decide
  have hhex : ∀ c, isHexDigit c = true → c ≠ dquote := by
    rintro c hc rfl
    exact absurd hc (by decide)
  induction h with
  | nil => exact fun _ => trivial
  | plain _ hquote _ _ ih => exact fun _ => ⟨fun h => absurd h hquote, ih _⟩
  | escape _ _ ih => exact fun _ => ⟨fun h => absurd h hslash, fun _ => rfl, ih _⟩
  | unicode hc hd he hf _ ih =>
    intro _
    exact ⟨fun h => absurd h hslash, fun h => absurd h (by decide), fun h => absurd h (hhex _ hc),
      fun h => absurd h (hhex _ hd), fun h => absurd h (hhex _ he), fun h => absurd h (hhex _ hf),
      ih _⟩

/-- The characters of numbers and literals. -/
def isScalarChar (c : UInt8) : Bool :=
  isDigit c || c == 43 || c == 45 || c == 46 || c == 69 || (97 ≤ c && c ≤ 122)

/-- A number or a literal. -/
def ScalarText (s : Str) : Prop := s ≠ [] ∧ ∀ c ∈ s, isScalarChar c = true

theorem scalar_of_digits {s : Str} (h : ∀ c ∈ s, isDigit c = true) :
    ∀ c ∈ s, isScalarChar c = true := by
  intro c hc
  rw [isScalarChar, h c hc]
  rfl

theorem LiteralText.scalar {s : Str} (h : LiteralText s) : ScalarText s := by
  rcases h with h | h | h
  · rw [h]; exact ⟨by decide, List.all_eq_true.mp rfl⟩
  · rw [h]; exact ⟨by decide, List.all_eq_true.mp rfl⟩
  · rw [h]; exact ⟨by decide, List.all_eq_true.mp rfl⟩

theorem NumberText.scalar {s : Str} (h : NumberText s) : ScalarText s := by
  obtain ⟨sign, int, frac, exp, rfl, hsign, hint, hfrac, hexp⟩ := h
  have hsigned : ∀ c ∈ sign, isScalarChar c = true := by
    rcases hsign with h | h
    · rw [h]; exact List.forall_mem_nil _
    · rw [h]; exact List.all_eq_true.mp rfl
  have hfraction : ∀ c ∈ frac, isScalarChar c = true := by
    rcases hfrac with h | ⟨ds, h, hds⟩
    · rw [h]; exact List.forall_mem_nil _
    · rw [h]
      exact List.forall_mem_cons.mpr ⟨rfl, scalar_of_digits hds.2⟩
  have hexponent : ∀ c ∈ exp, isScalarChar c = true := by
    rcases hexp with h | ⟨e, sign, ds, h, he, hs, hds⟩
    · rw [h]; exact List.forall_mem_nil _
    · rw [h]
      refine List.forall_mem_cons.mpr ⟨?_, fun c hc => ?_⟩
      · rcases he with rfl | rfl <;> rfl
      · rcases List.mem_append.mp hc with hc | hc
        · rcases hs with hs | hs | hs <;> rw [hs] at hc
          · cases hc
          · rw [List.mem_singleton.mp hc]; rfl
          · rw [List.mem_singleton.mp hc]; rfl
        · exact scalar_of_digits hds.2 c hc
  refine ⟨fun hnil => hint.1.1 ?_, fun c hc => ?_⟩
  · exact (List.append_eq_nil_iff.mp (List.append_eq_nil_iff.mp hnil).2).1
  · rcases List.mem_append.mp hc with hc | hc
    · exact hsigned c hc
    · rcases List.mem_append.mp hc with hc | hc
      · exact scalar_of_digits hint.1.2 c hc
      · rcases List.mem_append.mp hc with hc | hc
        · exact hfraction c hc
        · exact hexponent c hc

/-- **The shapes of a value.** -/
theorem ValueText.shape {v : Str} (h : ValueText v) :
    (∃ body, v = quoted body ∧ StringBody body) ∨ ScalarText v ∨
      (∃ s, v = lbracket :: s ++ [rbracket]) ∨ ∃ s, v = lbrace :: s ++ [rbrace] := by
  cases h with
  | string h => exact .inl ⟨_, rfl, h⟩
  | number h => exact .inr (.inl h.scalar)
  | literal h => exact .inr (.inl h.scalar)
  | emptyArray _ => exact .inr (.inr (.inl ⟨_, rfl⟩))
  | array _ => exact .inr (.inr (.inl ⟨_, rfl⟩))
  | emptyObject _ => exact .inr (.inr (.inr ⟨_, rfl⟩))
  | object _ => exact .inr (.inr (.inr ⟨_, rfl⟩))

end Rojcpp.Json
