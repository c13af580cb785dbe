import Mathlib.Data.List.TakeWhile
import Mathlib.Logic.Function.Basic
import Rojcpp.Cpp.Text

/-!
# `parse_connection_string`

A connection string is the name of a driver, a colon, and properties `key=value` with semicolons
between them; a value may stand in single quotes, with each quote inside it doubled.

The position of the parser is the text not read yet.  All its loops consume that text but one: the
loop that looks for the semicolon behind a value passes over blanks, ends at a semicolon and does
nothing at any other character, so there it runs for ever.  The model has fuel for that loop and for
the loop over the properties, and `Stuck` says which texts use up any amount of it.
-/

namespace Rojcpp.Sql

open Function

/-- The byte `'`. -/
abbrev squote : UInt8 := 39

/-- The byte `=`. -/
abbrev equals : UInt8 := '='

/-- The byte `;`. -/
abbrev semicolon : UInt8 := ';'

/-- The byte `:`. -/
abbrev colon : UInt8 := ':'

/-- `is_blank_char`. -/
def isBlankChar (c : UInt8) : Bool := c == ' ' || c == 9 || c == 13 || c == 10 || c == 12

/-- `trim`. -/
def trim (s : Str) : Str := ((s.dropWhile isBlankChar).reverse.dropWhile isBlankChar).reverse

/-- `find`, with the text in front of the character and the text behind it. -/
def cutAt (d : UInt8) : Str → Option (Str × Str)
  | [] => none
  | c :: t => if c = d then some ([], t) else (cutAt d t).map fun r => (c :: r.1, r.2)

/-- The loop over a value in quotes, behind the opening one: the value and the text behind the
closing quote, or `none` at the end of the text. -/
def quotedValue (value : Str) : Str → Option (Str × Str)
  | [] => none
  | [c] => if c = squote then some (value, []) else none
  | c :: c' :: t =>
    if c = squote then
      if c' = squote then quotedValue (value ++ [squote]) t else some (value, c' :: t)
    else quotedValue (value ++ [c]) (c' :: t)

/-- A value and the text behind it, from behind the equals sign. -/
def propertyValue (text : Str) : Option (Str × Str) :=
  match text.dropWhile isBlankChar with
  | [] => some ([], [])
  | c :: t =>
    if c = squote then quotedValue [] t
    else
      match cutAt semicolon (c :: t) with
      | none => some (trim (c :: t), [])
      | some (value, rest) => some (trim value, semicolon :: rest)

/-- The loop that ends a property. -/
def skipSeparator : ℕ → Str → Option Str
  | _, [] => some []
  | 0, _ :: _ => none
  | fuel + 1, c :: t =>
    if isBlankChar c = true then skipSeparator fuel t
    else if c = semicolon then some t
    else skipSeparator fuel (c :: t)

/-- `std::map<std::string, std::string>`. -/
abbrev Params := Str → Option Str

/-- The loop over the properties. -/
def properties : ℕ → Params → Str → Option (Except Str Params)
  | _, params, [] => some (.ok params)
  | 0, _, _ :: _ => none
  | fuel + 1, params, c :: t =>
    match cutAt equals (c :: t) with
    | none => some (.error (ascii "Invalid connection string - invalid property"))
    | some (before, behind) =>
      match propertyValue behind with
      | none => some (.error (ascii "Invalid connection string unterminated string"))
      | some (value, rest) =>
        if params (trim before) ≠ none then
          some (.error (ascii "cppdb::invalid connection string duplicate key"))
        else
          (skipSeparator fuel rest).bind
            (properties fuel (update params (trim before) (some value)))

/-- `parse_connection_string`: the driver and the properties, or the exception; `none` when the fuel
does not suffice. -/
def parseConnectionString (fuel : ℕ) (connectionString : Str) :
    Option (Except Str (Str × Params)) :=
  match cutAt colon connectionString with
  | none => some (.error (ascii "cppdb::Invalid connection string - no driver given"))
  | some (driver, rest) =>
    (properties fuel (fun _ => none) rest).map fun r => r.map fun params => (driver, params)

/-! ### The parts of a property -/

theorem cutAt_append {d : UInt8} {s : Str} (hs : d ∉ s) (t : Str) :
    cutAt d (s ++ d :: t) = some (s, t) := by
  induction s with
  | nil => exact if_pos rfl
  | cons c s ih =>
    rw [List.mem_cons, not_or] at hs
    rw [List.cons_append, cutAt, if_neg (Ne.symm hs.1), ih hs.2]
    rfl

theorem cutAt_some {d : UInt8} {s a b : Str} (h : cutAt d s = some (a, b)) :
    s = a ++ d :: b ∧ d ∉ a := by
  induction s generalizing a with
  | nil => cases h
  | cons c s ih =>
    rw [cutAt] at h
    split at h
    · rename_i hc
      cases h
      exact ⟨by rw [hc]; rfl, List.not_mem_nil⟩
    · rename_i hc
      obtain ⟨⟨a', b'⟩, hrest, heq⟩ := Option.map_eq_some_iff.mp h
      cases heq
      obtain ⟨hs, ha⟩ := ih hrest
      refine ⟨by rw [hs]; rfl, ?_⟩
      rw [List.mem_cons, not_or]
      exact ⟨Ne.symm hc, ha⟩

/-- A value with its quotes doubled. -/
def doubleQuotes (value : Str) : Str :=
  value.flatMap fun c => if c = squote then [squote, squote] else [c]

theorem doubleQuotes_cons (c : UInt8) (value : Str) :
    doubleQuotes (c :: value) =
      (if c = squote then [squote, squote] else [c]) ++ doubleQuotes value := rfl

/-- The closing quote ends the value, unless another one follows it. -/
theorem quotedValue_append {rest : Str} (hrest : rest.head? ≠ some squote) (value : Str) :
    ∀ acc : Str, quotedValue acc (doubleQuotes value ++ squote :: rest) =
      some (acc ++ value, rest) := by
  induction value with
  | nil =>
    intro acc
    rw [List.append_nil]
    cases rest with
    | nil => exact if_pos rfl
    | cons c t =>
      have hc : c ≠ squote := fun hc => hrest (congrArg some hc)
      show quotedValue acc (squote :: c :: t) = _
      rw [quotedValue, if_pos rfl, if_neg hc]
  | cons c value ih =>
    intro acc
    rw [doubleQuotes_cons]
    by_cases hc : c = squote
    · rw [if_pos hc, hc]
      show quotedValue acc (squote :: squote :: (doubleQuotes value ++ squote :: rest)) = _
      rw [quotedValue, if_pos rfl, if_pos rfl, ih, List.append_assoc]
      rfl
    · rw [if_neg hc]
      have hnonempty : ∃ c' t, doubleQuotes value ++ squote :: rest = c' :: t := by
        cases doubleQuotes value with
        | nil => exact ⟨squote, rest, rfl⟩
        | cons c' t => exact ⟨c', t ++ squote :: rest, rfl⟩
      obtain ⟨c', t, ht⟩ := hnonempty
      have hih := ih (acc ++ [c])
      rw [ht] at hih
      show quotedValue acc (c :: (doubleQuotes value ++ squote :: rest)) = _
      rw [ht, quotedValue, if_neg hc, hih, List.append_assoc]
      rfl

/-- Every value in quotes is read from such a text. -/
theorem quotedValue_some (acc text : Str) : ∀ {v rest : Str},
    quotedValue acc text = some (v, rest) →
      ∃ value, v = acc ++ value ∧ text = doubleQuotes value ++ squote :: rest ∧
        rest.head? ≠ some squote := by
  induction acc, text using quotedValue.induct with
  | case1 acc =>
    intro v rest h
    cases h
  | case2 acc =>
    intro v rest h
    rw [quotedValue, if_pos rfl] at h
    cases h
    exact ⟨[], (List.append_nil _).symm, rfl, by simp⟩
  | case3 acc c hc =>
    intro v rest h
    rw [quotedValue, if_neg hc] at h
    cases h
  | case4 acc t ih =>
    intro v rest h
    rw [quotedValue, if_pos rfl, if_pos rfl] at h
    obtain ⟨value, rfl, rfl, hrest⟩ := ih h
    refine ⟨squote :: value, by rw [List.append_assoc]; rfl, ?_, hrest⟩
    rw [doubleQuotes_cons, if_pos rfl]
    rfl
  | case5 acc c' t hc' =>
    intro v rest h
    rw [quotedValue, if_pos rfl, if_neg hc'] at h
    cases h
    exact ⟨[], (List.append_nil _).symm, rfl, fun hhead => hc' (Option.some.inj hhead)⟩
  | case6 acc c c' t hc ih =>
    intro v rest h
    rw [quotedValue, if_neg hc] at h
    obtain ⟨value, rfl, htext, hrest⟩ := ih h
    refine ⟨c :: value, by rw [List.append_assoc]; rfl, ?_, hrest⟩
    rw [doubleQuotes_cons, if_neg hc, htext]
    rfl

/-- A text is a run of blanks and what the loop over blanks leaves of it. -/
theorem blanks_split (s : Str) :
    ∃ blanks rest, s = blanks ++ rest ∧ (∀ b ∈ blanks, isBlankChar b = true) ∧
      s.dropWhile isBlankChar = rest ∧ ∀ c ∈ rest.head?, isBlankChar c = false := by
  refine ⟨s.takeWhile isBlankChar, s.dropWhile isBlankChar, ?_, ?_, rfl, ?_⟩
  · exact List.takeWhile_append_dropWhile.symm
  · exact fun b hb => List.mem_takeWhile_imp hb
  · intro c hc
    have hhead := List.head?_dropWhile_not isBlankChar s
    rw [Option.mem_def.mp hc] at hhead
    simpa using hhead

theorem dropWhile_blanks {blanks : Str} (h : ∀ b ∈ blanks, isBlankChar b = true) (rest : Str) :
    (blanks ++ rest).dropWhile isBlankChar = rest.dropWhile isBlankChar :=
  List.dropWhile_append_of_pos h

theorem trim_blanks_append {blanks : Str} (h : ∀ b ∈ blanks, isBlankChar b = true) (s : Str) :
    trim (blanks ++ s) = trim s := by
  rw [trim, dropWhile_blanks h, ← trim]

/-- A value that is not in quotes ends in front of the next semicolon. -/
theorem propertyValue_plain {blanks t value rest : Str} {c : UInt8}
    (hblanks : ∀ b ∈ blanks, isBlankChar b = true) (hc : isBlankChar c = false)
    (hquote : c ≠ squote) (hcut : cutAt semicolon (c :: t) = some (value, rest)) :
    propertyValue (blanks ++ c :: t) = some (trim value, semicolon :: rest) := by
  rw [propertyValue, dropWhile_blanks hblanks, List.dropWhile_cons_of_neg (by simp [hc])]
  simp only [if_neg hquote, hcut]

theorem ne_squote_of_blank {b : UInt8} (hb : isBlankChar b = true) : b ≠ squote := by
  intro h
  rw [h] at hb
  exact absurd hb (by decide)

/-- A value in quotes ends behind its closing quote. -/
theorem propertyValue_quoted {before rest : Str} (hbefore : ∀ b ∈ before, isBlankChar b = true)
    (value : Str) (hrest : rest.head? ≠ some squote) :
    propertyValue (before ++ squote :: (doubleQuotes value ++ squote :: rest)) =
      some (value, rest) := by
  rw [propertyValue, dropWhile_blanks hbefore]
  exact quotedValue_append hrest value []

/-- The text of a value with the semicolon behind it, and the value. -/
inductive ValueText : Str → Str → Prop
  | quoted (before value after : Str) (hbefore : ∀ b ∈ before, isBlankChar b = true)
      (hafter : ∀ b ∈ after, isBlankChar b = true) :
      ValueText (before ++ squote :: (doubleQuotes value ++ squote :: (after ++ [semicolon]))) value
  | plain (text : Str) (hsemicolon : semicolon ∉ text)
      (hquote : (text.dropWhile isBlankChar).head? ≠ some squote) :
      ValueText (text ++ [semicolon]) (trim text)

/-- Such a text is read up to its semicolon. -/
theorem ValueText.propertyValue_append {text value : Str} (h : ValueText text value) (rest : Str) :
    ∃ after, (∀ b ∈ after, isBlankChar b = true) ∧
      propertyValue (text ++ rest) = some (value, after ++ semicolon :: rest) := by
  cases h with
  | quoted before value after hbefore hafter =>
    refine ⟨after, hafter, ?_⟩
    have hhead : (after ++ semicolon :: rest).head? ≠ some squote := by
      cases after with
      | nil => exact fun hc => absurd (Option.some.inj hc) (by decide)
      | cons b after =>
        exact fun hb => ne_squote_of_blank (hafter b List.mem_cons_self) (Option.some.inj hb)
    have htext :
        (before ++ squote :: (doubleQuotes value ++ squote :: (after ++ [semicolon]))) ++ rest =
          before ++ squote :: (doubleQuotes value ++ squote :: (after ++ semicolon :: rest)) := by
      simp
    rw [htext]
    exact propertyValue_quoted hbefore value hhead
  | plain text hsemicolon hquote =>
    refine ⟨[], by simp, ?_⟩
    obtain ⟨blanks, word, rfl, hblanks, hword, hhead⟩ := blanks_split text
    rw [hword] at hquote
    have hsemi : semicolon ∉ word := fun hmem => hsemicolon (List.mem_append_right _ hmem)
    rw [trim_blanks_append hblanks, List.append_assoc, List.append_assoc]
    cases word with
    | nil => exact propertyValue_plain hblanks (by decide) (by decide) (cutAt_append hsemi rest)
    | cons c word =>
      have hc : c ≠ squote := fun hc => hquote (congrArg some hc)
      exact propertyValue_plain hblanks (hhead c rfl) hc (cutAt_append hsemi rest)

/-- What stands behind a value that was read: nothing but blanks to the end of the text, the
semicolon of a value's text, or, behind a value in quotes, some other character. -/
inductive BehindValue (text value : Str) : Str → Prop
  | none (rest : Str) (hrest : ∀ b ∈ rest, isBlankChar b = true) : BehindValue text value rest
  | separator (valueText after rest : Str) (htext : text = valueText ++ rest)
      (hvalue : ValueText valueText value) (hafter : ∀ b ∈ after, isBlankChar b = true) :
      BehindValue text value (after ++ semicolon :: rest)
  | other (before after : Str) (c : UInt8) (rest : Str)
      (htext : text = before ++ squote :: (doubleQuotes value ++ squote :: (after ++ c :: rest)))
      (hbefore : ∀ b ∈ before, isBlankChar b = true) (hafter : ∀ b ∈ after, isBlankChar b = true)
      (hblank : isBlankChar c = false) (hsemicolon : c ≠ semicolon)
      (hquote : after = [] → c ≠ squote) : BehindValue text value (after ++ c :: rest)

theorem propertyValue_some {text value rest : Str} (h : propertyValue text = some (value, rest)) :
    BehindValue text value rest := by
  obtain ⟨blanks, word, rfl, hblanks, hword, hhead⟩ := blanks_split text
  rw [propertyValue, hword] at h
  cases word with
  | nil =>
    cases h
    exact .none [] (by simp)
  | cons c t =>
    dsimp only at h
    split at h
    · rename_i hc
      obtain ⟨v, hv, rfl, hquote⟩ := quotedValue_some [] t h
      obtain rfl : value = v := hv
      rw [hc]
      obtain ⟨after, tail, rfl, hafter, -, htail⟩ := blanks_split rest
      cases tail with
      | nil =>
        rw [List.append_nil]
        exact .none after hafter
      | cons d w =>
        by_cases hd : d = semicolon
        · rw [hd]
          refine .separator _ after w ?_ (.quoted blanks value after hblanks hafter)
            hafter
          simp
        · refine .other blanks after d w rfl hblanks hafter (htail d rfl) hd ?_
          intro hnil hd
          rw [hnil, hd] at hquote
          exact hquote rfl
    · rename_i hc
      split at h
      · cases h
        exact .none [] (by simp)
      · rename_i v w hcut
        cases h
        obtain ⟨hct, hv⟩ := cutAt_some hcut
        rw [hct, ← trim_blanks_append hblanks v]
        refine .separator ((blanks ++ v) ++ [semicolon]) [] w (by simp) (.plain _ ?_ ?_) (by simp)
        · rw [List.mem_append, not_or]
          refine ⟨fun hmem => ?_, hv⟩
          exact absurd (hblanks _ hmem) (by decide)
        · rw [dropWhile_blanks hblanks]
          cases v with
          | nil => simp
          | cons d v =>
            obtain ⟨rfl, -⟩ := List.cons.inj hct
            rw [List.dropWhile_cons_of_neg (by rw [hhead c rfl]; exact Bool.false_ne_true)]
            exact fun hquote => hc (Option.some.inj hquote)

theorem propertyValue_isSuffix {text value rest : Str}
    (h : propertyValue text = some (value, rest)) : rest <:+ text := by
  obtain ⟨blanks, word, rfl, -, hword, -⟩ := blanks_split text
  rw [propertyValue, hword] at h
  cases word with
  | nil =>
    cases h
    exact List.nil_suffix
  | cons c t =>
    dsimp only at h
    split at h
    · obtain ⟨v, -, rfl, -⟩ := quotedValue_some [] t h
      exact ⟨blanks ++ c :: (doubleQuotes v ++ [squote]), by simp⟩
    · split at h
      · cases h
        exact List.nil_suffix
      · rename_i v w hcut
        cases h
        rw [(cutAt_some hcut).1, ← List.append_assoc]
        exact List.suffix_append _ _

/-! ### The loop behind a value -/

theorem skipSeparator_semicolon {after : Str} (hafter : ∀ b ∈ after, isBlankChar b = true)
    (rest : Str) : ∀ fuel : ℕ, skipSeparator fuel (after ++ semicolon :: rest) =
      if after.length < fuel then some rest else none := by
  induction after with
  | nil =>
    intro fuel
    cases fuel with
    | zero => rfl
    | succ fuel => exact (if_pos (Nat.succ_pos fuel)).symm
  | cons b after ih =>
    intro fuel
    cases fuel with
    | zero => rfl
    | succ fuel =>
      rw [List.cons_append, skipSeparator, if_pos (hafter b List.mem_cons_self),
        ih fun c hc => hafter c (List.mem_cons_of_mem b hc)]
      simp only [List.length_cons, Nat.add_lt_add_iff_right]

theorem skipSeparator_end {rest : Str} (hrest : ∀ b ∈ rest, isBlankChar b = true) :
    ∀ {fuel : ℕ}, rest.length ≤ fuel → skipSeparator fuel rest = some [] := by
  induction rest with
  | nil =>
    intro fuel _
    exact skipSeparator.eq_1 fuel
  | cons b rest ih =>
    intro fuel hfuel
    obtain ⟨fuel, rfl⟩ := Nat.exists_eq_succ_of_ne_zero (Nat.ne_of_gt (Nat.zero_lt_of_lt hfuel))
    rw [skipSeparator, if_pos (hrest b List.mem_cons_self)]
    exact ih (fun c hc => hrest c (List.mem_cons_of_mem b hc)) (Nat.le_of_succ_le_succ hfuel)

/-- **The loop does not get past a character that is neither a blank nor a semicolon.** -/
theorem skipSeparator_other {after : Str} {c : UInt8} (hafter : ∀ b ∈ after, isBlankChar b = true)
    (hblank : isBlankChar c = false) (hsemicolon : c ≠ semicolon) (rest : Str) (fuel : ℕ) :
    skipSeparator fuel (after ++ c :: rest) = none := by
  induction fuel generalizing after with
  | zero => cases after <;> rfl
  | succ fuel ih =>
    cases after with
    | nil =>
      rw [List.nil_append, skipSeparator, if_neg (by simp [hblank]), if_neg hsemicolon]
      exact ih hafter
    | cons b after =>
      rw [List.cons_append, skipSeparator, if_pos (hafter b List.mem_cons_self)]
      exact ih fun d hd => hafter d (List.mem_cons_of_mem b hd)

/-! ### The loop over the properties -/

/-- A text on which the parser does not return: properties with new keys, and then a value in quotes
that is followed, behind blanks, by a character that is not a semicolon. -/
inductive Stuck : List Str → Str → Prop
  | here {known : List Str} (key before value after : Str) (c : UInt8) (rest : Str)
      (hkey : equals ∉ key) (hnew : trim key ∉ known)
      (hbefore : ∀ b ∈ before, isBlankChar b = true) (hafter : ∀ b ∈ after, isBlankChar b = true)
      (hblank : isBlankChar c = false) (hsemicolon : c ≠ semicolon)
      (hquote : after = [] → c ≠ squote) :
      Stuck known (key ++ equals ::
        (before ++ squote :: (doubleQuotes value ++ squote :: (after ++ c :: rest))))
  | later {known : List Str} (key text value rest : Str) (hkey : equals ∉ key)
      (hnew : trim key ∉ known) (hvalue : ValueText text value)
      (hrest : Stuck (trim key :: known) rest) : Stuck known (key ++ equals :: (text ++ rest))

/-- The parameters that are set are those of the known keys. -/
def Params.Knows (params : Params) (known : List Str) : Prop :=
  ∀ key, params key ≠ none ↔ key ∈ known

theorem Params.knows_empty : Params.Knows (fun _ => none) [] := fun _ =>
  iff_of_false (fun h => h rfl) List.not_mem_nil

theorem Params.Knows.update {params : Params} {known : List Str} (h : params.Knows known)
    (key value : Str) : Params.Knows (update params key (some value)) (key :: known) := by
  intro k
  by_cases hk : k = key
  · rw [hk, update_self]
    exact iff_of_true (Option.some_ne_none _) List.mem_cons_self
  · rw [update_of_ne hk, h k, List.mem_cons]
    exact (or_iff_right hk).symm

/-- One turn of the loop, for a key that is new. -/
theorem properties_pair {key behind value rest : Str} {params : Params} (hkey : equals ∉ key)
    (hvalue : propertyValue behind = some (value, rest)) (hnew : params (trim key) = none)
    (fuel : ℕ) : properties (fuel + 1) params (key ++ equals :: behind) =
      (skipSeparator fuel rest).bind
        (properties fuel (update params (trim key) (some value))) := by
  obtain ⟨c, t, ht⟩ : ∃ c t, key ++ equals :: behind = c :: t := by
    cases key with
    | nil => exact ⟨equals, behind, rfl⟩
    | cons c key => exact ⟨c, key ++ equals :: behind, rfl⟩
  have hcut := cutAt_append hkey behind
  rw [ht] at hcut ⊢
  simp only [properties, hcut, hvalue, hnew, ne_eq, not_true_eq_false, if_false]

theorem Params.Knows.eq_none {params : Params} {known : List Str} (h : params.Knows known)
    {key : Str} (hnew : key ∉ known) : params key = none := by
  cases hkey : params key with
  | none => rfl
  | some value => exact absurd ((h key).mp (by rw [hkey]; exact Option.some_ne_none _)) hnew

/-- **On a text that is stuck no amount of fuel suffices.** -/
theorem Stuck.properties_eq_none {known : List Str} {text : Str} (h : Stuck known text) :
    ∀ {params : Params}, params.Knows known → ∀ fuel, properties fuel params text = none := by
  induction h with
  | here key before value after c rest hkey hnew hbefore hafter hblank hsemicolon hquote =>
    intro params hparams fuel
    have hhead : (after ++ c :: rest).head? ≠ some squote := by
      cases after with
      | nil => exact fun hc => hquote rfl (Option.some.inj hc)
      | cons b after =>
        exact fun hb => ne_squote_of_blank (hafter b List.mem_cons_self) (Option.some.inj hb)
    have hvalue := propertyValue_quoted hbefore value hhead
    cases fuel with
    | zero => cases key <;> rfl
    | succ fuel =>
      rw [properties_pair hkey hvalue (hparams.eq_none hnew),
        skipSeparator_other hafter hblank hsemicolon]
      rfl
  | later key text value rest hkey hnew hvalue hrest ih =>
    intro params hparams fuel
    obtain ⟨after, hafter, hread⟩ := hvalue.propertyValue_append rest
    cases fuel with
    | zero => cases key <;> rfl
    | succ fuel =>
      rw [properties_pair hkey hread (hparams.eq_none hnew)]
      cases hskip : skipSeparator fuel (after ++ semicolon :: rest) with
      | none => rfl
      | some rest' =>
        rw [skipSeparator_semicolon hafter, Option.ite_none_right_eq_some, Option.some.injEq]
          at hskip
        rw [← hskip.2]
        exact ih (hparams.update (trim key) value) fuel

/-- One turn of the loop throws, or it reads a property with a new key. -/
theorem properties_cases {text : Str} (htext : text ≠ []) (params : Params) (fuel : ℕ) :
    (∃ e, properties (fuel + 1) params text = some (.error e)) ∨
      ∃ key behind value rest, text = key ++ equals :: behind ∧ equals ∉ key ∧
        propertyValue behind = some (value, rest) ∧ params (trim key) = none := by
  obtain ⟨c, t, rfl⟩ := List.exists_cons_of_ne_nil htext
  cases hcut : cutAt equals (c :: t) with
  | none =>
    refine .inl ⟨ascii "Invalid connection string - invalid property", ?_⟩
    simp only [properties, hcut]
  | some pair =>
    obtain ⟨key, behind⟩ := pair
    cases hvalue : propertyValue behind with
    | none =>
      refine .inl ⟨ascii "Invalid connection string unterminated string", ?_⟩
      simp only [properties, hcut, hvalue]
    | some read =>
      obtain ⟨value, rest⟩ := read
      by_cases hnew : params (trim key) = none
      · obtain ⟨hpair, hkey⟩ := cutAt_some hcut
        exact .inr ⟨key, behind, value, rest, hpair, hkey, hvalue, hnew⟩
      · refine .inl ⟨ascii "cppdb::invalid connection string duplicate key", ?_⟩
        simp only [properties, hcut, hvalue, ne_eq, hnew, not_false_eq_true, if_true]

/-- **On any other text the loop ends**, with fuel for its length. -/
theorem properties_terminates (fuel : ℕ) :
    ∀ {known : List Str} {params : Params} {text : Str}, params.Knows known →
      ¬Stuck known text → text.length ≤ fuel → ∃ r, properties fuel params text = some r := by
  induction fuel with
  | zero =>
    intro known params text _ _ hlength
    rw [List.eq_nil_of_length_eq_zero (Nat.le_zero.mp hlength)]
    exact ⟨.ok params, properties.eq_1 0 params⟩
  | succ fuel ih =>
    intro known params text hparams hstuck hlength
    by_cases hnil : text = []
    · rw [hnil]
      exact ⟨.ok params, properties.eq_1 _ params⟩
    · rcases properties_cases hnil params fuel with hthrows | hpair
      · obtain ⟨e, he⟩ := hthrows
        exact ⟨.error e, he⟩
      · obtain ⟨key, behind, value, rest, rfl, hkey, hvalue, hnew⟩ := hpair
        have hnew' : trim key ∉ known := fun hmem => (hparams _).mpr hmem hnew
        have hsuffix := (propertyValue_isSuffix hvalue).length_le
        rw [List.length_append, List.length_cons] at hlength
        rw [properties_pair hkey hvalue hnew]
        cases propertyValue_some hvalue with
        | none _ hrest =>
          rw [skipSeparator_end hrest (by omega)]
          exact ⟨.ok _, properties.eq_1 _ _⟩
        | separator valueText after rest hsplit hvalueText hafter =>
          rw [List.length_append, List.length_cons] at hsuffix
          rw [skipSeparator_semicolon hafter, if_pos (by omega)]
          refine ih (hparams.update (trim key) value) (fun hrest => hstuck ?_) (by omega)
          rw [hsplit]
          exact .later key valueText value rest hkey hnew' hvalueText hrest
        | other before after c rest hsplit hbefore hafter hblank hsemicolon hquote =>
          rw [hsplit] at hstuck
          exact absurd (.here key before value after c rest hkey hnew' hbefore hafter hblank
            hsemicolon hquote) hstuck

/-! ### The whole string -/

/-- Behind the driver stands a text that is stuck. -/
def StuckString (connectionString : Str) : Prop :=
  ∃ driver rest, connectionString = driver ++ colon :: rest ∧ colon ∉ driver ∧ Stuck [] rest

/-- **`parse_connection_string` returns or throws exactly on the strings in which no value in quotes
is followed, behind blanks, by a character that is not a semicolon**, as far as the properties are
read before an exception. -/
theorem parseConnectionString_terminates_iff (connectionString : Str) :
    (∃ fuel r, parseConnectionString fuel connectionString = some r) ↔
      ¬StuckString connectionString := by
  constructor
  · intro h hstuck
    obtain ⟨fuel, r, h⟩ := h
    obtain ⟨driver, rest, rfl, hdriver, hstuck⟩ := hstuck
    rw [parseConnectionString, cutAt_append hdriver] at h
    simp only [hstuck.properties_eq_none Params.knows_empty fuel, Option.map_none] at h
    cases h
  · intro h
    cases hcut : cutAt colon connectionString with
    | none =>
      refine ⟨0, .error (ascii "cppdb::Invalid connection string - no driver given"), ?_⟩
      rw [parseConnectionString, hcut]
    | some pair =>
      obtain ⟨driver, rest⟩ := pair
      obtain ⟨hsplit, hdriver⟩ := cutAt_some hcut
      have hrest : ¬Stuck [] rest := fun hstuck => h ⟨driver, rest, hsplit, hdriver, hstuck⟩
      obtain ⟨r, hr⟩ := properties_terminates rest.length Params.knows_empty hrest (Nat.le_refl _)
      refine ⟨rest.length, r.map fun params => (driver, params), ?_⟩
      simp only [parseConnectionString, hcut, hr, Option.map_some]

/-- A value in quotes with an `x` behind it. -/
def stuckExample : Str := ascii "d:k='v'x"

theorem parseConnectionString_stuck :
    ¬∃ fuel r, parseConnectionString fuel stuckExample = some r := by
  intro h
  obtain ⟨fuel, r, h⟩ := h
  have hstuck : Stuck [] ([107] ++ equals :: ([] ++ squote :: (doubleQuotes [118] ++ squote ::
      ([] ++ 120 :: [])))) :=
    .here [107] [] [118] [] 120 [] (by decide) (by simp) (by simp) (by simp) (by decide) (by decide)
      fun _ => by decide
  have hsplit : stuckExample = [100] ++ colon :: ([107] ++ equals :: ([] ++ squote ::
      (doubleQuotes [118] ++ squote :: ([] ++ 120 :: [])))) := by decide
  rw [parseConnectionString, hsplit, cutAt_append (by decide)] at h
  simp only [hstuck.properties_eq_none Params.knows_empty fuel, Option.map_none] at h
  cases h

end Rojcpp.Sql
