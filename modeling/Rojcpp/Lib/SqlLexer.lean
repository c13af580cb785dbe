import Rojcpp.Cpp.Text

/-!
# String literals of MySQL statements

A lexer for the part of MySQL's syntax that decides where a string literal begins and ends: a
single quote delimits, `''` inside a literal stands for one quote, and a backslash escapes the
next byte.  Everything outside literals is cut into words and single symbols.  The lexer is a
byte automaton, so that a statement can be lexed piece by piece (`lexFrom_append`).

`literal` reads the rest of a literal after its opening quote.  The two facts about it that matter
for a statement built by pasting are

* `literal_verbatim`: a pasted text without quotes, whose backslashes all stand in front of `%` or
  `_`, becomes the value of its literal;
* `verbatim_of_literal`: no other pasted text does, whatever follows it in the statement.

The second one needs an argument, because a quote or a backslash at the end of the pasted text
swallows the closing quote of the template and the literal runs on into the template's own text:
`literal_not_lagging` shows that its value can then never catch up with the pasted text.
-/

namespace Rojcpp.Lib

/-- The byte that delimits literals. -/
abbrev quote : UInt8 := '\''

/-- The byte that escapes the next one in a literal. -/
abbrev backslash : UInt8 := '\\'

/-- A token of a statement.  `unterminated` is a literal the statement ends in. -/
inductive Token where
  | word (w : Str)
  | sym (c : UInt8)
  | str (value : Str)
  | unterminated (value : Str)
  deriving DecidableEq, Repr

/-- Where the lexer stands: in ordinary text with a word begun, in a literal, behind a backslash
of a literal, or behind a quote that closes the literal unless another quote follows. -/
inductive LexMode where
  | text (w : Str)
  | quoted (v : Str)
  | escaped (v : Str)
  | closing (v : Str)
  deriving DecidableEq, Repr

/-- Bytes that words are made of. -/
def isWordChar (c : UInt8) : Bool :=
  isDigit c || (65 ≤ c && c ≤ 90) || (97 ≤ c && c ≤ 122) || c == '_' || c == '$' || 128 ≤ c

/-- What a backslash followed by `c` stands for in a literal: `\%` and `\_` keep the backslash,
an unknown escape is the byte itself. -/
def unescape (c : UInt8) : Str :=
  if c = '%' || c = '_' then [backslash, c]
  else if c = '0' then [0]
  else if c = 'b' then [8]
  else if c = 't' then [9]
  else if c = 'n' then [10]
  else if c = 'r' then [13]
  else if c = 'Z' then [26]
  else [c]

/-- The token of the word begun, if any. -/
def flush (w : Str) : List Token := if w = [] then [] else [.word w]

/-- One byte outside literals. -/
def lexText (w : Str) (c : UInt8) : List Token × LexMode :=
  if c = quote then (flush w, .quoted [])
  else if isSpace c then (flush w, .text [])
  else if isWordChar c then ([], .text (w ++ [c]))
  else (flush w ++ [.sym c], .text [])

/-- One byte of the statement. -/
def lexStep : LexMode → UInt8 → List Token × LexMode
  | .text w, c => lexText w c
  | .quoted v, c =>
    if c = quote then ([], .closing v)
    else if c = backslash then ([], .escaped v)
    else ([], .quoted (v ++ [c]))
  | .escaped v, c => ([], .quoted (v ++ unescape c))
  | .closing v, c =>
    if c = quote then ([], .quoted (v ++ [c]))
    else (.str v :: (lexText [] c).1, (lexText [] c).2)

/-- The tokens still owed at the end of the statement. -/
def lexEnd : LexMode → List Token
  | .text w => flush w
  | .quoted v => [.unterminated v]
  | .escaped v => [.unterminated v]
  | .closing v => [.str v]

/-- The tokens of the rest of a statement. -/
def lexFrom : LexMode → Str → List Token
  | m, [] => lexEnd m
  | m, c :: s => (lexStep m c).1 ++ lexFrom (lexStep m c).2 s

/-- The tokens of a statement. -/
def lex (s : Str) : List Token := lexFrom (.text []) s

/-! ### Ordinary text -/

/-- A text without quotes lexes on its own in front of a literal: at the opening quote the lexer
has emitted what it would have emitted at the end of the text. -/
theorem lexFrom_text_quote (w pre s : Str) (hpre : quote ∉ pre) :
    lexFrom (.text w) (pre ++ quote :: s) =
      lexFrom (.text w) pre ++ lexFrom (.quoted []) s := by
  induction pre generalizing w with
  | nil => rfl
  | cons c pre ih =>
    have hc : c ≠ '\'' := fun h => hpre (by simp [h])
    have hrest : quote ∉ pre := fun h => hpre (by simp [h])
    rw [List.cons_append, lexFrom, lexFrom, lexStep, lexText, if_neg hc]
    split
    · rw [ih _ hrest, List.append_assoc]
    · split <;> simp only [ih _ hrest, List.append_assoc]

/-! ### Literals -/

/-- The rest of a literal behind its opening quote: its value and the text behind the closing
quote, or `none` if the statement ends first. -/
def literal : Str → Option (Str × Str)
  | [] => none
  | [c] => if c = quote then some ([], []) else none
  | c :: d :: s =>
    if c = quote then
      if d = quote then (literal s).map fun r => (c :: r.1, r.2) else some ([], d :: s)
    else if c = backslash then (literal s).map fun r => (unescape d ++ r.1, r.2)
    else (literal (d :: s)).map fun r => (c :: r.1, r.2)

theorem lexFrom_quoted_plain (v : Str) (c : UInt8) (s : Str) (hc : c ≠ quote)
    (hb : c ≠ backslash) : lexFrom (.quoted v) (c :: s) = lexFrom (.quoted (v ++ [c])) s := by
  rw [lexFrom, lexStep, if_neg hc, if_neg hb, List.nil_append]

theorem lexFrom_quoted_escape (v : Str) (d : UInt8) (s : Str) :
    lexFrom (.quoted v) (backslash :: d :: s) = lexFrom (.quoted (v ++ unescape d)) s := rfl

theorem lexFrom_quoted_double (v s : Str) :
    lexFrom (.quoted v) (quote :: quote :: s) = lexFrom (.quoted (v ++ [quote])) s := rfl

theorem lexFrom_quoted_close (v : Str) (d : UInt8) (s : Str) (hd : d ≠ quote) :
    lexFrom (.quoted v) (quote :: d :: s) = .str v :: lexFrom (.text []) (d :: s) := by
  rw [lexFrom, lexStep, if_pos rfl, List.nil_append, lexFrom, lexStep, if_neg hd,
    List.cons_append, lexFrom, lexStep]

/-- The lexer inside a literal does what `literal` says. -/
theorem lexFrom_quoted (s : Str) : ∀ (v : Str) (r : Str × Str), literal s = some r →
    lexFrom (.quoted v) s = .str (v ++ r.1) :: lexFrom (.text []) r.2 := by
  induction s using literal.induct with
  | case1 => intro v r h; simp [literal] at h
  | case2 =>
    intro v r h
    simp only [literal, if_true, Option.some.injEq] at h
    subst h
    rw [List.append_nil]
    rfl
  | case3 c hc => intro v r h; simp [literal, hc] at h
  | case4 s ih =>
    intro v r h
    simp only [literal, if_true, Option.map_eq_some_iff] at h
    obtain ⟨r', hr', rfl⟩ := h
    rw [lexFrom_quoted_double, ih _ _ hr', List.append_assoc, List.singleton_append]
  | case5 d s hd =>
    intro v r h
    simp only [literal, if_true, if_neg hd, Option.some.injEq] at h
    subst h
    rw [lexFrom_quoted_close v d s hd, List.append_nil]
  | case6 d s hc ih =>
    intro v r h
    simp only [literal, if_neg hc, if_true, Option.map_eq_some_iff] at h
    obtain ⟨r', hr', rfl⟩ := h
    rw [lexFrom_quoted_escape, ih _ _ hr', List.append_assoc]
  | case7 c d s hc hb ih =>
    intro v r h
    simp only [literal, if_neg hc, if_neg hb, Option.map_eq_some_iff] at h
    obtain ⟨r', hr', rfl⟩ := h
    rw [lexFrom_quoted_plain v c _ hc hb, ih _ _ hr', List.append_assoc, List.singleton_append]

/-- Without a closing quote the statement ends inside the literal. -/
theorem lexFrom_quoted_none (s : Str) : ∀ v : Str, literal s = none →
    ∃ w, lexFrom (.quoted v) s = [.unterminated w] := by
  induction s using literal.induct with
  | case1 => exact fun v _ => ⟨v, rfl⟩
  | case2 => intro v h; simp [literal] at h
  | case3 c hc =>
    intro v _
    by_cases hb : c = backslash
    · exact ⟨v, by rw [hb]; rfl⟩
    · exact ⟨v ++ [c], by rw [lexFrom_quoted_plain v c _ hc hb, lexFrom, lexEnd]⟩
  | case4 s ih =>
    intro v h
    simp only [literal, if_true, Option.map_eq_none_iff] at h
    exact ih (v ++ [quote]) h
  | case5 d s hd => intro v h; simp [literal, hd] at h
  | case6 d s hc ih =>
    intro v h
    simp only [literal, if_neg hc, if_true, Option.map_eq_none_iff] at h
    exact ih (v ++ unescape d) h
  | case7 c d s hc hb ih =>
    intro v h
    simp only [literal, if_neg hc, if_neg hb, Option.map_eq_none_iff] at h
    rw [lexFrom_quoted_plain v c _ hc hb]
    exact ih _ h

/-! ### Texts pasted between two quotes -/

/-- A pasted text that is the value of the literal it is pasted into: it holds no quote, and a
backslash only where MySQL keeps it, in front of `%` or `_`. -/
def verbatim : Str → Bool
  | [] => true
  | [c] => c != quote && c != backslash
  | c :: d :: s =>
    if c = quote then false
    else if c = backslash then (d == '%' || d == '_') && verbatim s
    else verbatim (d :: s)

/-- What follows a pasted text and its closing quote: something other than a quote or a
backslash. -/
def PlainHead (s : Str) : Prop := ∃ c t, s = c :: t ∧ c ≠ quote ∧ c ≠ backslash

theorem literal_close (post : Str) (hpost : PlainHead post) :
    literal (quote :: post) = some ([], post) := by
  obtain ⟨c, t, rfl, hc, -⟩ := hpost
  rw [literal, if_pos rfl, if_neg hc]

/-- **A verbatim text is the value of its literal.** -/
theorem literal_verbatim (p post : Str) (hpost : PlainHead post) (hp : verbatim p = true) :
    literal (p ++ quote :: post) = some (p, post) := by
  have hclose := literal_close post hpost
  induction p using verbatim.induct with
  | case1 => exact hclose
  | case2 c =>
    simp only [verbatim, Bool.and_eq_true, bne_iff_ne] at hp
    rw [List.singleton_append, literal, if_neg hp.1, if_neg hp.2, hclose]
    rfl
  | case3 d s => simp [verbatim] at hp
  | case4 d s hc ih =>
    simp only [verbatim, if_neg hc, if_true, Bool.and_eq_true, Bool.or_eq_true, beq_iff_eq] at hp
    have hd : unescape d = [backslash, d] := by
      rw [unescape, if_pos (by simpa using hp.1)]
    rw [List.cons_append, List.cons_append, literal, if_neg hc, if_pos rfl, ih hp.2, hd]
    rfl
  | case5 c d s hc hb ih =>
    simp only [verbatim, if_neg hc, if_neg hb] at hp
    have h := ih hp
    rw [List.cons_append] at h
    rw [List.cons_append, List.cons_append, literal, if_neg hc, if_neg hb, h]
    rfl

/-- The bytes a literal can start an escape with. -/
def special (c : UInt8) : Prop := c = quote ∨ c = backslash

/-- An escape stands for a quote or a backslash only if it is that byte escaped. -/
theorem unescape_special (d e : UInt8) (he : special e) (s t : Str)
    (h : unescape d ++ s = e :: t) :
    (e = d ∧ s = t) ∨ ((d = '%' ∨ d = '_') ∧ e = backslash ∧ t = d :: s) := by
  unfold unescape at h
  split at h
  · rename_i hd
    right
    simp only [List.cons_append, List.nil_append, List.cons.injEq] at h
    exact ⟨by simpa using hd, h.1.symm, h.2.symm⟩
  · left
    rcases he with rfl | rfl <;> (repeat' split at h) <;> simp_all <;>
      exact absurd h.1 (by decide)

/-- A literal whose value starts with a byte that is not special reads that byte as it is. -/
theorem literal_head (post : Str) (hpost : PlainHead post) (v rest : Str)
    (h : literal post = some (v, rest)) : ∃ c t, v = c :: t ∧ ¬ special c := by
  obtain ⟨c, t, rfl, hc, hb⟩ := hpost
  cases t with
  | nil => simp [literal, hc] at h
  | cons d s =>
    simp only [literal, if_neg hc, if_neg hb, Option.map_eq_some_iff, Prod.mk.injEq] at h
    obtain ⟨r, -, rfl, -⟩ := h
    exact ⟨c, r.1, rfl, by simp [special, hc, hb]⟩

/-- The escape at the end of a pasted text takes the closing quote of the template, and the
literal goes on in the template. -/
theorem literal_swallow (c : UInt8) (hc : special c) (post v rest : Str)
    (h : literal (c :: quote :: post) = some (v, rest)) :
    ∃ v', literal post = some (v', rest) ∧ v = quote :: v' := by
  have hq : unescape quote = [quote] := by decide
  rcases hc with rfl | rfl
  · simp only [literal, if_true, Option.map_eq_some_iff, Prod.mk.injEq] at h
    obtain ⟨⟨v', rest'⟩, hr, rfl, rfl⟩ := h
    exact ⟨v', hr, rfl⟩
  · simp only [literal, if_neg (show backslash ≠ quote by decide), if_true,
      Option.map_eq_some_iff, Prod.mk.injEq, hq] at h
    obtain ⟨⟨v', rest'⟩, hr, rfl, rfl⟩ := h
    exact ⟨v', hr, rfl⟩

/-- A plain byte of a literal is the first byte of its value. -/
theorem literal_plain (c : UInt8) (hq : c ≠ quote) (hb : c ≠ backslash) (d : UInt8)
    (s v rest : Str) (h : literal (c :: d :: s) = some (v, rest)) :
    ∃ v', literal (d :: s) = some (v', rest) ∧ v = c :: v' := by
  simp only [literal, if_neg hq, if_neg hb, Option.map_eq_some_iff, Prod.mk.injEq] at h
  obtain ⟨⟨v', rest'⟩, hr, rfl, rfl⟩ := h
  exact ⟨v', hr, rfl⟩

/-- A value that lags at the last byte of a text is not that text. -/
theorem literal_last_not_lagging {post : Str} (hpost : PlainHead post) (c : UInt8) (x v rest : Str)
    (hx : x ≠ []) (hsp : ∀ e ∈ x, special e) (h : literal (c :: quote :: post) = some (v, rest)) :
    v ≠ x ++ [c] := by
  intro hv
  obtain ⟨e, xs, rfl⟩ := List.exists_cons_of_ne_nil hx
  by_cases hc : special c
  · obtain ⟨v', hv', rfl⟩ := literal_swallow c hc post v rest h
    obtain ⟨d, t, rfl, hd⟩ := literal_head post hpost v' rest hv'
    have hgap : d :: t = xs ++ [c] := (List.cons.inj hv).2
    have hmem : d ∈ xs ++ [c] := by simp [← hgap]
    rcases List.mem_append.mp hmem with hm | hm
    · exact hd (hsp d (by simp [hm]))
    · exact hd (by rw [List.mem_singleton.mp hm]; exact hc)
  · obtain ⟨v', -, rfl⟩ := literal_plain c (fun h => hc (.inl h)) (fun h => hc (.inr h)) _ _ _ _ h
    exact hc (by rw [(List.cons.inj hv).1]; exact hsp e (by simp))

/-- **A lagging value never catches up.**  Once the value of a literal is behind the text it was
read from, with special bytes in the gap, it cannot be that text: only an escaped special byte
reads as a special byte, so the gap grows, and the template's own text starts with a plain one. -/
theorem literal_not_lagging (post : Str) (hpost : PlainHead post) (p : Str) :
    ∀ (x v rest : Str), x ≠ [] → (∀ e ∈ x, special e) →
      literal (p ++ quote :: post) = some (v, rest) → v ≠ x ++ p := by
  induction p using literal.induct with
  | case1 =>
    intro x v rest hx _ h hv
    rw [List.nil_append, literal_close post hpost, Option.some.injEq, Prod.mk.injEq] at h
    exact hx (by simpa [← h.1] using hv.symm)
  | case2 => exact literal_last_not_lagging hpost quote
  | case3 c _ => exact literal_last_not_lagging hpost c
  | case4 s ih =>
    intro x v rest hx hsp h hv
    obtain ⟨e, xs, rfl⟩ := List.exists_cons_of_ne_nil hx
    simp only [List.cons_append, literal, if_true, Option.map_eq_some_iff, Prod.mk.injEq] at h
    obtain ⟨⟨v', rest'⟩, hr, rfl, rfl⟩ := h
    -- the gap loses its first byte and gains the two quotes
    have hgap : v' = (xs ++ [quote, quote]) ++ s := by simpa using (List.cons.inj hv).2
    refine ih (xs ++ [quote, quote]) v' rest' (by simp) ?_ hr hgap
    intro b hb
    rcases List.mem_append.mp hb with hb | hb
    · exact hsp b (by simp [hb])
    · exact .inl (by simpa using hb)
  | case5 d s hd =>
    intro x v rest hx hsp h hv
    simp only [List.cons_append, literal, if_true, if_neg hd, Option.some.injEq,
      Prod.mk.injEq] at h
    simp [← h.1] at hv
  | case6 d s hq ih =>
    intro x v rest hx hsp h hv
    obtain ⟨e, xs, rfl⟩ := List.exists_cons_of_ne_nil hx
    simp only [List.cons_append, literal, if_neg hq, if_true, Option.map_eq_some_iff,
      Prod.mk.injEq] at h
    obtain ⟨⟨v', rest'⟩, hr, rfl, rfl⟩ := h
    have he : special e := hsp e (by simp)
    rcases unescape_special d e he v' _ hv with ⟨rfl, hgap⟩ | ⟨hd, rfl, hgap⟩
    · refine ih (xs ++ [backslash, e]) v' rest' (by simp) ?_ hr (by simpa using hgap)
      intro b hb
      rcases List.mem_append.mp hb with hb | hb
      · exact hsp b (by simp [hb])
      · rcases List.mem_pair.mp hb with rfl | rfl
        · exact .inr rfl
        · exact he
    · -- the kept escape shows its second byte where the gap has a special one
      have hd' : ¬ special d := by rcases hd with rfl | rfl <;> (unfold special; decide)
      cases xs with
      | nil => exact hd' (.inr (List.cons.inj hgap).1.symm)
      | cons b xs => exact hd' (by rw [← (List.cons.inj hgap).1]; exact hsp b (by simp))
  | case7 c d s hq hb ih =>
    intro x v rest hx hsp h hv
    obtain ⟨e, xs, rfl⟩ := List.exists_cons_of_ne_nil hx
    obtain ⟨v', -, rfl⟩ := literal_plain c hq hb d _ v rest h
    have he : special c := by rw [(List.cons.inj hv).1]; exact hsp e (by simp)
    exact he.elim hq hb

/-- **Only a verbatim text is the value of its literal.** -/
theorem verbatim_of_literal (p post rest : Str) (hpost : PlainHead post)
    (h : literal (p ++ quote :: post) = some (p, rest)) : verbatim p = true := by
  have hlag := literal_not_lagging post hpost
  induction p using verbatim.induct with
  | case1 => rfl
  | case2 c =>
    by_contra hc
    have hsp : special c := by
      simp only [verbatim, Bool.and_eq_true, bne_iff_ne, not_and_or, not_not] at hc
      exact hc
    obtain ⟨v', hv', hcons⟩ := literal_swallow c hsp post _ rest h
    obtain ⟨d, t, rfl, -⟩ := literal_head post hpost v' rest hv'
    simp at hcons
  | case3 d s =>
    by_cases hd : d = quote
    · simp only [List.cons_append, literal, hd, if_true, Option.map_eq_some_iff,
        Prod.mk.injEq, List.cons.injEq, true_and] at h
      obtain ⟨⟨v', rest'⟩, hr, hv', -⟩ := h
      exact absurd hv' (hlag s [quote] v' rest' (by simp) (by simp [special]) hr)
    · simp [literal, hd] at h
  | case4 d s hq ih =>
    simp only [List.cons_append, literal, if_neg hq, if_true, Option.map_eq_some_iff,
      Prod.mk.injEq] at h
    obtain ⟨⟨v', rest'⟩, hr, hv', rfl⟩ := h
    rcases unescape_special d backslash (.inr rfl) v' _ hv' with ⟨rfl, hgap⟩ | ⟨hd, -, hgap⟩
    · exact absurd hgap (hlag s [backslash] v' rest' (by simp) (by simp [special]) hr)
    · obtain rfl : v' = s := by simpa using hgap.symm
      simp only [verbatim, if_neg hq, if_true, Bool.and_eq_true, Bool.or_eq_true, beq_iff_eq]
      exact ⟨hd, ih hr⟩
  | case5 c d s hq hb ih =>
    obtain ⟨v', hv', hcons⟩ := literal_plain c hq hb d _ _ rest h
    simp only [verbatim, if_neg hq, if_neg hb]
    obtain rfl : d :: s = v' := (List.cons.inj hcons).2
    exact ih hv'

/-- A statement that goes on with a pasted literal has the literal's token there exactly when the
pasted text is verbatim and the text after it has the tokens it has on its own. -/
theorem lexFrom_paste_iff (p post : Str) (hpost : PlainHead post) (ts : List Token) :
    lexFrom (.quoted []) (p ++ quote :: post) = .str p :: ts ↔
      verbatim p = true ∧ lex post = ts := by
  constructor
  · intro h
    cases hl : literal (p ++ quote :: post) with
    | none =>
      obtain ⟨w, hw⟩ := lexFrom_quoted_none _ [] hl
      rw [hw] at h
      simp at h
    | some r =>
      rw [lexFrom_quoted _ [] r hl, List.cons.injEq] at h
      obtain ⟨hstr, hts⟩ := h
      have hp : r = (p, r.2) := by
        rw [← Token.str.inj hstr]
        rfl
      rw [hp] at hl
      have hv := verbatim_of_literal p post r.2 hpost hl
      rw [literal_verbatim p post hpost hv, Option.some.injEq, Prod.mk.injEq] at hl
      exact ⟨hv, by rw [lex, hl.2, hts]⟩
  · rintro ⟨hv, rfl⟩
    rw [lexFrom_quoted _ [] _ (literal_verbatim p post hpost hv)]
    rfl

/-- The same for a statement that begins with a text without quotes. -/
theorem lex_paste_iff (pre p post : Str) (hpre : quote ∉ pre) (hpost : PlainHead post)
    (ts : List Token) :
    lex (pre ++ quote :: (p ++ quote :: post)) = lex pre ++ .str p :: ts ↔
      verbatim p = true ∧ lex post = ts := by
  rw [lex, lexFrom_text_quote [] pre _ hpre, lex, List.append_cancel_left_eq,
    lexFrom_paste_iff p post hpost]

end Rojcpp.Lib
