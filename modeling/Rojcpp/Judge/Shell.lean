import Rojcpp.Judge.JudgeArgs

/-!
# The words of a command line

`popen` hands its text to `sh -c`, which splits it into words.  The model covers command lines
like those of the judge server: words of plain bytes with parts between double quotes.  What the
shell makes of the text between double quotes, where it still looks for `$`, backquotes and
backslashes, is the parameter `expand`; such a part never becomes more than one word.

The text a command line has between its quotes ends at the quote that belongs to it, because
`std::quoted` puts a backslash in front of every other one.
-/

namespace Rojcpp.Judge

open Rojcpp.Lib

/-- The double quote. -/
abbrev dquote : UInt8 := '"'

/-- The backslash. -/
abbrev backslash : UInt8 := '\\'

/-- A byte that stands for itself outside quotes: a letter, a digit, or one of `- _ = / . , :`. -/
def isPlain (c : UInt8) : Bool :=
  (97 ≤ c && c ≤ 122) || (65 ≤ c && c ≤ 90) || (44 ≤ c && c ≤ 58) || c == '_' || c == '='

/-- Where the shell is in its input: between two words, in a word, between double quotes with the
word in front of them, or there behind a backslash. -/
inductive ShellState where
  | between
  | word (w : Str)
  | quoted (w q : Str)
  | escaped (w q : Str)
  deriving DecidableEq, Repr

/-- The words of a text; `none` when a quote is not closed or another special byte stands outside
quotes. -/
def shellWords (expand : Str → Str) : ShellState → Str → Option (List Str)
  | .between, [] => some []
  | .word w, [] => some [w]
  | .quoted _ _, [] => none
  | .escaped _ _, [] => none
  | .between, c :: s =>
    if c = ' ' then shellWords expand .between s
    else if c = dquote then shellWords expand (.quoted [] []) s
    else if isPlain c = true then shellWords expand (.word [c]) s
    else none
  | .word w, c :: s =>
    if c = ' ' then (shellWords expand .between s).map fun ws => w :: ws
    else if c = dquote then shellWords expand (.quoted w []) s
    else if isPlain c = true then shellWords expand (.word (w ++ [c])) s
    else none
  | .quoted w q, c :: s =>
    if c = dquote then shellWords expand (.word (w ++ expand q)) s
    else if c = backslash then shellWords expand (.escaped w q) s
    else shellWords expand (.quoted w (q ++ [c])) s
  | .escaped w q, c :: s => shellWords expand (.quoted w (q ++ [backslash, c])) s

/-- What `std::quoted` puts between the quotes. -/
def escapeQuoted (p : Str) : Str :=
  p.flatMap fun c => if c = dquote ∨ c = backslash then [backslash, c] else [c]

theorem quotedPath_eq (p : Path) : quotedPath p = dquote :: escapeQuoted p ++ [dquote] := rfl

/-! ### Plain text and quoted text -/

theorem blank_eq : (32 : UInt8) = ' ' := rfl

section
variable (expand : Str → Str)

/-- A plain byte is neither the blank nor the quote. -/
theorem isPlain_ne {c : UInt8} (h : isPlain c = true) : c ≠ ' ' ∧ c ≠ dquote := by
  constructor
  · rintro rfl
    exact absurd h (by decide)
  · rintro rfl
    exact absurd h (by decide)

theorem shellWords_plain {p : Str} (hp : ∀ c ∈ p, isPlain c = true) (w s : Str) :
    shellWords expand (.word w) (p ++ s) = shellWords expand (.word (w ++ p)) s := by
  induction p generalizing w with
  | nil => rw [List.nil_append, List.append_nil]
  | cons c p ih =>
    have hc : isPlain c = true := hp c (by simp)
    obtain ⟨hblank, hquote⟩ := isPlain_ne hc
    rw [List.cons_append, shellWords, if_neg hblank, if_neg hquote, if_pos hc,
      ih (fun d hd => hp d (by simp [hd])), List.append_assoc]
    rfl

/-- The text of a quoted path is read up to its end. -/
theorem shellWords_escapeQuoted (p w q s : Str) :
    shellWords expand (.quoted w q) (escapeQuoted p ++ s) =
      shellWords expand (.quoted w (q ++ escapeQuoted p)) s := by
  induction p generalizing q with
  | nil => rw [escapeQuoted, List.flatMap_nil, List.nil_append, List.append_nil]
  | cons c p ih =>
    have hcons : escapeQuoted (c :: p) =
        (if c = dquote ∨ c = backslash then [backslash, c] else [c]) ++ escapeQuoted p :=
      List.flatMap_cons
    rw [hcons]
    by_cases hc : c = dquote ∨ c = backslash
    · have hne : ¬ backslash = dquote := by decide
      rw [if_pos hc, List.append_assoc, List.cons_append, shellWords, if_neg hne, if_pos rfl,
        List.cons_append, shellWords, List.nil_append, ih, List.append_assoc]
    · have hquote : ¬ c = dquote := fun h => hc (.inl h)
      have hback : ¬ c = backslash := fun h => hc (.inr h)
      rw [if_neg hc, List.append_assoc, List.cons_append, shellWords, if_neg hquote,
        if_neg hback, List.nil_append, ih, List.append_assoc]

/-- A word of plain bytes. -/
theorem shellWords_plainWord {p : Str} (hne : p ≠ []) (hp : ∀ c ∈ p, isPlain c = true) (s : Str) :
    shellWords expand .between (p ++ 32 :: s) =
      (shellWords expand .between s).map fun ws => p :: ws := by
  obtain ⟨c, t, rfl⟩ := List.exists_cons_of_ne_nil hne
  have hc : isPlain c = true := hp c (by simp)
  obtain ⟨hblank, hquote⟩ := isPlain_ne hc
  rw [List.cons_append, shellWords, if_neg hblank, if_neg hquote, if_pos hc,
    shellWords_plain expand fun d hd => hp d (by simp [hd]), shellWords, if_pos blank_eq]
  rfl

/-- Plain bytes and a quote behind them. -/
theorem shellWords_quoteOpen {p : Str} (hne : p ≠ []) (hp : ∀ c ∈ p, isPlain c = true) (s : Str) :
    shellWords expand .between (p ++ dquote :: s) = shellWords expand (.quoted p []) s := by
  obtain ⟨c, t, rfl⟩ := List.exists_cons_of_ne_nil hne
  have hc : isPlain c = true := hp c (by simp)
  obtain ⟨hblank, hquote⟩ := isPlain_ne hc
  have hquote' : ¬ dquote = ' ' := by decide
  rw [List.cons_append, shellWords, if_neg hblank, if_neg hquote, if_pos hc,
    shellWords_plain expand fun d hd => hp d (by simp [hd]), shellWords, if_neg hquote',
    if_pos rfl, List.singleton_append]

/-- A word that ends with a quoted path. -/
theorem shellWords_quotedWord {p : Str} (hne : p ≠ []) (hp : ∀ c ∈ p, isPlain c = true) (q : Path)
    (s : Str) :
    shellWords expand .between (p ++ quotedPath q ++ 32 :: s) =
      (shellWords expand .between s).map fun ws => (p ++ expand (escapeQuoted q)) :: ws := by
  have hshape : p ++ quotedPath q ++ 32 :: s =
      p ++ dquote :: (escapeQuoted q ++ dquote :: 32 :: s) := by
    simp [quotedPath_eq]
  rw [hshape, shellWords_quoteOpen expand hne hp, shellWords_escapeQuoted, List.nil_append,
    shellWords, if_pos rfl, shellWords, if_pos blank_eq]

/-- A quoted path whose closing quote is missing is no command line. -/
theorem shellWords_unclosed (p w q : Str) :
    shellWords expand (.quoted w q) (escapeQuoted p) = none := by
  have h := shellWords_escapeQuoted expand p w q []
  rw [List.append_nil] at h
  rw [h, shellWords]

end

/-! ### C strings -/

theorem cStr_append {a : Str} (ha : 0 ∉ a) (b : Str) : cStr (a ++ b) = a ++ cStr b := by
  rw [cStr, cStr, List.takeWhile_append_of_pos]
  intro c hc
  rw [bne_iff_ne]
  rintro rfl
  exact ha hc

/-- A text with a zero byte is cut in front of it. -/
theorem cStr_zero {a : Str} (ha : 0 ∉ a) (b : Str) : cStr (a ++ 0 :: b) = a := by
  rw [cStr_append ha, cStr, List.takeWhile_cons_of_neg (by simp), List.append_nil]

/-- A text is free of zero bytes, or cut in front of its first one. -/
theorem zero_cases (p : Str) : 0 ∉ p ∨ ∃ a b, p = a ++ 0 :: b ∧ 0 ∉ a := by
  by_cases hp : 0 ∈ p
  · obtain ⟨a, b, rfl, ha⟩ := List.eq_append_cons_of_mem hp
    exact .inr ⟨a, b, rfl, ha⟩
  · exact .inl hp

theorem escapeQuoted_zero {p : Str} (hp : 0 ∉ p) : 0 ∉ escapeQuoted p := by
  intro hmem
  obtain ⟨c, hc, h⟩ := List.mem_flatMap.mp hmem
  have hne : ¬ (0 : UInt8) = backslash := by decide
  have h0 : (0 : UInt8) = c := by
    by_cases hspecial : c = dquote ∨ c = backslash
    · rw [if_pos hspecial] at h
      rcases List.mem_cons.mp h with h | h
      · exact absurd h hne
      · exact List.mem_singleton.mp h
    · rw [if_neg hspecial] at h
      exact List.mem_singleton.mp h
  exact hp (h0 ▸ hc)

theorem quotedPath_zero {p : Path} (hp : 0 ∉ p) : 0 ∉ quotedPath p := by
  have hne : ¬ (0 : UInt8) = dquote := by decide
  rw [quotedPath_eq]
  intro hmem
  rcases List.mem_append.mp hmem with hmem | hmem
  · rcases List.mem_cons.mp hmem with hmem | hmem
    · exact hne hmem
    · exact escapeQuoted_zero hp hmem
  · exact hne (List.mem_singleton.mp hmem)

/-! ### The options of a command line -/

/-- The word an option becomes. -/
def optionWord (name : String) (value : Str) : Str :=
  ascii "--" ++ ascii name ++ ascii "=" ++ value

theorem option_append (name : String) (value s : Str) :
    option name value ++ s = optionWord name value ++ (32 :: s) := by
  rw [option, optionWord, List.append_assoc _ (ascii " ")]
  rfl

theorem isPlain_zero {p : Str} (hp : ∀ c ∈ p, isPlain c = true) : 0 ∉ p :=
  fun hmem => absurd (hp 0 hmem) (by decide)

section
variable {expand : Str → Str} {ws : List Str}

/-- A word of plain bytes, as far as the text of `popen` goes. -/
theorem words_plain {p s : Str} (hne : p ≠ []) (hp : ∀ c ∈ p, isPlain c = true)
    (h : shellWords expand .between (cStr (p ++ 32 :: s)) = some ws) :
    ∃ ws', ws = p :: ws' ∧ shellWords expand .between (cStr s) = some ws' := by
  have hcStr : cStr (32 :: s) = 32 :: cStr s := List.takeWhile_cons_of_pos (by decide)
  rw [cStr_append (isPlain_zero hp), hcStr, shellWords_plainWord expand hne hp] at h
  obtain ⟨ws', hws', rfl⟩ := Option.map_eq_some_iff.mp h
  exact ⟨ws', rfl, hws'⟩

/-- A word that ends with a quoted path; a path with a zero byte leaves its quote open. -/
theorem words_quoted {p s : Str} {q : Path} (hne : p ≠ []) (hp : ∀ c ∈ p, isPlain c = true)
    (h : shellWords expand .between (cStr (p ++ quotedPath q ++ 32 :: s)) = some ws) :
    ∃ ws', ws = (p ++ expand (escapeQuoted q)) :: ws' ∧
      shellWords expand .between (cStr s) = some ws' := by
  rcases zero_cases q with hq | ⟨a, b, rfl, ha⟩
  · have hclosed : cStr (p ++ quotedPath q ++ 32 :: s) = p ++ quotedPath q ++ 32 :: cStr s := by
      have hzero : 0 ∉ p ++ quotedPath q := by
        intro hmem
        rcases List.mem_append.mp hmem with hmem | hmem
        · exact isPlain_zero hp hmem
        · exact quotedPath_zero hq hmem
      rw [cStr_append hzero]
      rfl
    rw [hclosed, shellWords_quotedWord expand hne hp] at h
    obtain ⟨ws', hws', rfl⟩ := Option.map_eq_some_iff.mp h
    exact ⟨ws', rfl, hws'⟩
  · have hzero : escapeQuoted (a ++ 0 :: b) = escapeQuoted a ++ 0 :: escapeQuoted b := by
      rw [escapeQuoted, List.flatMap_append, List.flatMap_cons]
      rfl
    have hopen : cStr (p ++ quotedPath (a ++ 0 :: b) ++ 32 :: s) =
        p ++ dquote :: escapeQuoted a := by
      rw [quotedPath_eq, hzero, List.append_assoc, cStr_append (isPlain_zero hp)]
      simp only [List.cons_append, List.append_assoc]
      show p ++ dquote :: cStr (escapeQuoted a ++ 0 :: _) = _
      rw [cStr_zero (escapeQuoted_zero ha)]
    rw [hopen, shellWords_quoteOpen expand hne hp, shellWords_unclosed] at h
    cases h

end

end Rojcpp.Judge
