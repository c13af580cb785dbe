import Rojcpp.Http.PicoParser
import Rojcpp.Lib.Incremental

/-!
# What `phr_parse_request` accepts

`HeadText` is the head of a request as it can stand in the input, with everything the parser skips:
the empty line before it, further blanks, blanks around a value, either end of a line, and
continuation lines.  The parser accepts exactly the inputs that start with such a head, and returns
what the head says.

More input changes none of its answers but `-2`: on every proper beginning of a head it asks for
more, and what it has refused or accepted stays so.
-/

namespace Rojcpp.Http

open Rojcpp.Lib

/-! ### The text of a head -/

/-- A blank. -/
abbrev sp : UInt8 := ' '

/-- The byte `:`. -/
abbrev colon : UInt8 := ':'

/-- How a line ends. -/
inductive Eol where
  | full
  | bare
  deriving DecidableEq, Repr

/-- `CR LF`, or a bare `LF`. -/
def Eol.text : Eol → Str
  | .full => [cr, lf]
  | .bare => [lf]

/-- A byte that may stand in a path. -/
def isPathChar (c : UInt8) : Bool := c != sp && !(c < 32 || c == 127)

/-- A header line: its name, `none` on a continuation line; the blanks before its value; the value;
the blanks behind it; and the end of the line.  A continuation line starts with a blank, which
counts as part of its value. -/
structure HeaderLine where
  name : Option Str
  before : Str
  value : Str
  behind : Str
  eol : Eol
  token : ∀ n ∈ name, n ≠ [] ∧ ∀ c ∈ n, isTokenChar c = true
  before_blank : ∀ c ∈ before, isBlank c = true
  printable : ∀ c ∈ value, isCtl c = false
  behind_blank : ∀ c ∈ behind, isBlank c = true
  trimmed : ∀ c ∈ value.getLast?, isBlank c = false
  named : name ≠ none → ∀ c ∈ (value ++ behind).head?, isBlank c = false
  continued : name = none → before = [] ∧ (value ++ behind).head?.any isBlank = true

/-- What stands before the value. -/
def HeaderLine.intro (l : HeaderLine) : Str :=
  match l.name with
  | some name => name ++ colon :: l.before
  | none => []

/-- What the parser takes up to the end of the line. -/
def HeaderLine.shown (l : HeaderLine) : Str := l.value ++ l.behind

/-- The line in the input. -/
def HeaderLine.text (l : HeaderLine) : Str := l.intro ++ (l.shown ++ l.eol.text)

/-- The lines and the empty line behind them. -/
def linesText (last : Eol) : List HeaderLine → Str
  | [] => last.text
  | l :: ls => l.text ++ linesText last ls

/-- The headers the lines state, when `rest` stands behind the head. -/
def lineHeaders (last : Eol) (rest : Str) : List HeaderLine → List PhrHeader
  | [] => []
  | l :: ls =>
    ⟨l.name, l.value, l.shown ++ (l.eol.text ++ (linesText last ls ++ rest))⟩ ::
      lineHeaders last rest ls

/-- The head of a request, with `gap` and `gap'` blanks more than one around the path. -/
structure HeadText where
  lead : Option Eol
  method : Str
  gap : ℕ
  path : Str
  gap' : ℕ
  minor : UInt8
  eol : Eol
  lines : List HeaderLine
  last : Eol
  method_ne : method ≠ []
  method_token : ∀ c ∈ method, isTokenChar c = true
  path_ne : path ≠ []
  path_plain : ∀ c ∈ path, isPathChar c = true
  minor_digit : isDigit minor = true
  first_named : ∀ l ∈ lines.head?, l.name ≠ none

/-- The empty line some clients send before a request. -/
def leadText : Option Eol → Str
  | some e => e.text
  | none => []

/-- From the version on. -/
def HeadText.versionText (h : HeadText) : Str :=
  ascii "HTTP/1." ++ (h.minor :: (h.eol.text ++ linesText h.last h.lines))

/-- The head in the input. -/
def HeadText.text (h : HeadText) : Str :=
  leadText h.lead ++ (h.method ++ (sp :: (List.replicate h.gap sp ++
    (h.path ++ (sp :: (List.replicate h.gap' sp ++ h.versionText))))))

/-- What the head states, when `rest` stands behind it. -/
def HeadText.request (h : HeadText) (rest : Str) : PhrRequest :=
  ⟨h.method, h.path, digitVal h.minor, lineHeaders h.last rest h.lines⟩

/-! ### What each part accepts -/

theorem expectChar_ok_iff {ch : UInt8} {s rest : Str} :
    expectChar ch s = .ok rest ↔ s = ch :: rest := by
  cases s with
  | nil => exact ⟨fun h => (by cases h), fun h => (by cases h)⟩
  | cons c t =>
    rw [expectChar]
    split
    · rename_i hc
      rw [hc]
      exact ⟨fun h => (by cases h; rfl), fun h => (by cases h; rfl)⟩
    · rename_i hc
      exact ⟨fun h => (by cases h), fun h => absurd (List.cons.inj h).1 hc⟩

theorem endOfLine_ok_iff {s rest : Str} :
    endOfLine s = .ok rest ↔ ∃ e : Eol, s = e.text ++ rest := by
  cases s with
  | nil =>
    refine ⟨fun h => (by cases h), fun h => ?_⟩
    obtain ⟨e, he⟩ := h
    cases e <;> cases he
  | cons c t =>
    rw [endOfLine]
    by_cases hcr : c = cr
    · rw [if_pos hcr, expectChar_ok_iff, hcr]
      refine ⟨fun h => ⟨.full, by rw [h]; rfl⟩, fun h => ?_⟩
      obtain ⟨e, he⟩ := h
      cases e <;> cases he
      rfl
    · rw [if_neg hcr]
      by_cases hlf : c = lf
      · rw [if_pos hlf, hlf]
        refine ⟨fun h => ⟨.bare, by cases h; rfl⟩, fun h => ?_⟩
        obtain ⟨e, he⟩ := h
        cases e <;> cases he
        rfl
      · rw [if_neg hlf]
        refine ⟨fun h => (by cases h), fun h => ?_⟩
        obtain ⟨e, he⟩ := h
        cases e with
        | full => exact absurd (List.cons.inj he).1 hcr
        | bare => exact absurd (List.cons.inj he).1 hlf

/-- A token ends at the first `next_char`, which is no token byte itself. -/
theorem parseToken_ok_iff {next_char : UInt8} (hnext : isTokenChar next_char = false) {s : Str} :
    ∀ {token rest : Str}, parseToken next_char s = .ok (token, rest) ↔
      (∀ c ∈ token, isTokenChar c = true) ∧ ∃ t, rest = next_char :: t ∧ s = token ++ rest := by
  induction s with
  | nil =>
    intro token rest
    refine ⟨fun h => (by cases h), fun h => ?_⟩
    obtain ⟨_, t, ht, hs⟩ := h
    rw [ht] at hs
    cases token <;> cases hs
  | cons c s ih =>
    intro token rest
    rw [parseToken]
    by_cases hc : c = next_char
    · rw [if_pos hc]
      constructor
      · intro h
        cases h
        exact ⟨List.forall_mem_nil _, s, by rw [hc], rfl⟩
      · intro h
        obtain ⟨htoken, t, ht, hs⟩ := h
        cases token with
        | nil => rw [hs, List.nil_append]
        | cons d token =>
          obtain rfl := (List.cons.inj hs).1
          have hd := htoken c List.mem_cons_self
          rw [hc, hnext] at hd
          cases hd
    · rw [if_neg hc]
      by_cases hchar : isTokenChar c = false
      · rw [if_pos hchar]
        refine ⟨fun h => (by cases h), fun h => ?_⟩
        obtain ⟨htoken, t, ht, hs⟩ := h
        cases token with
        | nil =>
          rw [ht] at hs
          exact absurd (List.cons.inj hs).1 hc
        | cons d token =>
          obtain rfl := (List.cons.inj hs).1
          rw [htoken c List.mem_cons_self] at hchar
          cases hchar
      · rw [if_neg hchar]
        constructor
        · intro h
          obtain ⟨r, hr, heq⟩ := map_ok_iff.mp h
          cases heq
          obtain ⟨htoken, t, ht, hs⟩ := ih.mp hr
          refine ⟨List.forall_mem_cons.mpr ⟨?_, htoken⟩, t, ht, by rw [hs]; rfl⟩
          rw [Bool.not_eq_false] at hchar
          exact hchar
        · intro h
          obtain ⟨htoken, t, ht, hs⟩ := h
          cases token with
          | nil =>
            rw [ht] at hs
            exact absurd (List.cons.inj hs).1 hc
          | cons d token =>
            obtain ⟨rfl, htail⟩ := List.cons.inj hs
            rw [ih.mpr ⟨(List.forall_mem_cons.mp htoken).2, t, ht, htail⟩]
            rfl

/-- A path ends at the first blank. -/
theorem advanceToken_ok_iff {s : Str} : ∀ {path rest : Str},
    advanceToken s = .ok (path, rest) ↔
      (∀ c ∈ path, isPathChar c = true) ∧ ∃ t, rest = sp :: t ∧ s = path ++ rest := by
  induction s with
  | nil =>
    intro path rest
    refine ⟨fun h => (by cases h), fun h => ?_⟩
    obtain ⟨_, t, ht, hs⟩ := h
    rw [ht] at hs
    cases path <;> cases hs
  | cons c s ih =>
    intro path rest
    rw [advanceToken]
    by_cases hc : c = sp
    · rw [if_pos hc]
      constructor
      · intro h
        cases h
        exact ⟨List.forall_mem_nil _, s, by rw [hc], rfl⟩
      · intro h
        obtain ⟨hpath, t, ht, hs⟩ := h
        cases path with
        | nil => rw [hs, List.nil_append]
        | cons d path =>
          obtain rfl := (List.cons.inj hs).1
          have hd := hpath c List.mem_cons_self
          rw [hc] at hd
          cases hd
    · rw [if_neg hc]
      by_cases hctl : (decide (c < 32) || c == 127) = true
      · rw [if_pos hctl]
        refine ⟨fun h => (by cases h), fun h => ?_⟩
        obtain ⟨hpath, t, ht, hs⟩ := h
        cases path with
        | nil =>
          rw [ht] at hs
          exact absurd (List.cons.inj hs).1 hc
        | cons d path =>
          obtain rfl := (List.cons.inj hs).1
          have hd := hpath c List.mem_cons_self
          rw [isPathChar, hctl, Bool.not_true, Bool.and_false] at hd
          cases hd
      · rw [if_neg hctl]
        constructor
        · intro h
          obtain ⟨r, hr, heq⟩ := map_ok_iff.mp h
          cases heq
          obtain ⟨hpath, t, ht, hs⟩ := ih.mp hr
          refine ⟨List.forall_mem_cons.mpr ⟨?_, hpath⟩, t, ht, by rw [hs]; rfl⟩
          rw [Bool.not_eq_true] at hctl
          rw [isPathChar, hctl, Bool.not_false, Bool.and_true]
          exact bne_iff_ne.mpr hc
        · intro h
          obtain ⟨hpath, t, ht, hs⟩ := h
          cases path with
          | nil =>
            rw [ht] at hs
            exact absurd (List.cons.inj hs).1 hc
          | cons d path =>
            obtain ⟨rfl, htail⟩ := List.cons.inj hs
            rw [ih.mpr ⟨(List.forall_mem_cons.mp hpath).2, t, ht, htail⟩]
            rfl

theorem skipWhile_ok_iff {skip : UInt8 → Bool} {s rest : Str} :
    skipWhile skip s = .ok rest ↔
      ∃ blanks, (∀ c ∈ blanks, skip c = true) ∧ (∃ c t, rest = c :: t ∧ skip c = false) ∧
        s = blanks ++ rest := by
  induction s with
  | nil =>
    refine ⟨fun h => (by cases h), fun h => ?_⟩
    obtain ⟨blanks, _, ⟨c, t, ht, _⟩, hs⟩ := h
    rw [ht] at hs
    cases blanks <;> cases hs
  | cons c s ih =>
    rw [skipWhile]
    by_cases hc : skip c = true
    · rw [if_pos hc, ih]
      constructor
      · intro h
        obtain ⟨blanks, hblanks, hrest, hs⟩ := h
        exact ⟨c :: blanks, List.forall_mem_cons.mpr ⟨hc, hblanks⟩, hrest, by rw [hs]; rfl⟩
      · intro h
        obtain ⟨blanks, hblanks, ⟨d, t, ht, hd⟩, hs⟩ := h
        cases blanks with
        | nil =>
          rw [ht] at hs
          rw [(List.cons.inj hs).1, hd] at hc
          cases hc
        | cons b blanks =>
          exact ⟨blanks, (List.forall_mem_cons.mp hblanks).2, ⟨d, t, ht, hd⟩, (List.cons.inj hs).2⟩
    · rw [if_neg hc]
      rw [Bool.not_eq_true] at hc
      constructor
      · intro h
        cases h
        exact ⟨[], List.forall_mem_nil _, ⟨c, s, rfl, hc⟩, rfl⟩
      · intro h
        obtain ⟨blanks, hblanks, _, hs⟩ := h
        cases blanks with
        | nil => rw [hs, List.nil_append]
        | cons b blanks =>
          rw [(List.cons.inj hs).1, (List.forall_mem_cons.mp hblanks).1] at hc
          cases hc

/-- The rest of a line ends at the first control byte, which has to be the end of the line. -/
theorem getTokenToEol_ok_iff {s : Str} : ∀ {token rest : Str},
    getTokenToEol s = .ok (token, rest) ↔
      (∀ c ∈ token, isCtl c = false) ∧ ∃ e : Eol, s = token ++ (e.text ++ rest) := by
  induction s with
  | nil =>
    intro token rest
    refine ⟨fun h => (by cases h), fun h => ?_⟩
    obtain ⟨_, e, hs⟩ := h
    cases token <;> cases e <;> cases hs
  | cons c s ih =>
    intro token rest
    rw [getTokenToEol]
    by_cases hc : isCtl c = true
    · rw [if_pos hc, map_ok_iff]
      constructor
      · intro h
        obtain ⟨r, hr, heq⟩ := h
        cases heq
        obtain ⟨e, he⟩ := endOfLine_ok_iff.mp hr
        exact ⟨List.forall_mem_nil _, e, he⟩
      · intro h
        obtain ⟨htoken, e, hs⟩ := h
        cases token with
        | nil => exact ⟨rest, endOfLine_ok_iff.mpr ⟨e, hs⟩, rfl⟩
        | cons d token =>
          rw [(List.cons.inj hs).1, (List.forall_mem_cons.mp htoken).1] at hc
          cases hc
    · rw [if_neg hc, map_ok_iff]
      rw [Bool.not_eq_true] at hc
      constructor
      · intro h
        obtain ⟨r, hr, heq⟩ := h
        cases heq
        obtain ⟨htoken, e, hs⟩ := ih.mp hr
        exact ⟨List.forall_mem_cons.mpr ⟨hc, htoken⟩, e, by rw [hs]; rfl⟩
      · intro h
        obtain ⟨htoken, e, hs⟩ := h
        cases token with
        | nil =>
          have hend : isCtl c = true := by
            cases e <;> rw [(List.cons.inj hs).1] <;> rfl
          rw [hend] at hc
          cases hc
        | cons d token =>
          obtain ⟨rfl, htail⟩ := List.cons.inj hs
          exact ⟨(token, rest), ih.mpr ⟨(List.forall_mem_cons.mp htoken).2, e, htail⟩, rfl⟩

/-- The version, and at least one byte behind it. -/
theorem parseHttpVersion_ok_iff {s rest : Str} {v : ℕ} :
    parseHttpVersion s = .ok (v, rest) ↔
      ∃ c, isDigit c = true ∧ v = digitVal c ∧ rest ≠ [] ∧ s = ascii "HTTP/1." ++ c :: rest := by
  have hseven : (ascii "HTTP/1.").length = 7 := by decide
  rw [parseHttpVersion]
  by_cases hshort : s.length < 9
  · rw [if_pos hshort]
    refine ⟨fun h => (by cases h), fun h => ?_⟩
    obtain ⟨c, _, _, hrest, hs⟩ := h
    have hpos := List.length_pos_iff.mpr hrest
    rw [hs, List.length_append, List.length_cons, hseven] at hshort
    omega
  · rw [if_neg hshort]
    by_cases hhttp : s.take 7 = ascii "HTTP/1."
    · rw [if_pos hhttp]
      have hs : s = ascii "HTTP/1." ++ s.drop 7 := by rw [← hhttp, List.take_append_drop]
      have hlen : (s.drop 7).length = s.length - 7 := List.length_drop
      generalize s.drop 7 = u at hs hlen
      cases u with
      | nil =>
        rw [List.length_nil] at hlen
        omega
      | cons c t =>
        rw [List.length_cons] at hlen
        simp only
        by_cases hdigit : isDigit c = true
        · rw [if_pos hdigit]
          constructor
          · intro h
            cases h
            exact ⟨c, hdigit, rfl, List.ne_nil_of_length_pos (by omega), hs⟩
          · intro h
            obtain ⟨d, _, hv, _, hd⟩ := h
            obtain ⟨rfl, rfl⟩ := List.cons.inj (List.append_cancel_left (hs.symm.trans hd))
            rw [hv]
        · rw [if_neg hdigit]
          refine ⟨fun h => (by cases h), fun h => ?_⟩
          obtain ⟨d, hd, _, _, hsd⟩ := h
          rw [(List.cons.inj (List.append_cancel_left (hs.symm.trans hsd))).1] at hdigit
          exact absurd hd hdigit
    · rw [if_neg hhttp]
      refine ⟨fun h => (by cases h), fun h => ?_⟩
      obtain ⟨c, _, _, _, hs⟩ := h
      rw [hs, ← hseven, List.take_left] at hhttp
      exact absurd rfl hhttp

/-! ### Header lines -/

theorem trimEnd_last (v : Str) : ∀ c ∈ (trimEnd v).getLast?, isBlank c = false := by
  intro c hc
  rw [trimEnd, List.getLast?_reverse] at hc
  have hhead := List.head?_dropWhile_not isBlank v.reverse
  rw [Option.mem_def.mp hc] at hhead
  simpa using hhead

/-- The blanks behind a value are what `trimEnd` takes away. -/
theorem HeaderLine.trimEnd_shown (l : HeaderLine) : trimEnd l.shown = l.value := by
  have hbehind : ∀ c ∈ l.behind.reverse, isBlank c = true := fun c hc =>
    l.behind_blank c (List.mem_reverse.mp hc)
  rw [trimEnd, shown, List.reverse_append, List.dropWhile_append_of_pos hbehind]
  have htrimmed := l.trimmed
  rw [← List.head?_reverse] at htrimmed
  cases hrev : l.value.reverse with
  | nil => rw [List.dropWhile_nil, ← hrev, List.reverse_reverse]
  | cons c u =>
    rw [hrev] at htrimmed
    rw [List.dropWhile_cons_of_neg (by rw [htrimmed c rfl]; decide), ← hrev, List.reverse_reverse]

/-- None of the bytes that end a part of the head is a token byte. -/
theorem isTokenChar_separators :
    isTokenChar sp = false ∧ isTokenChar ht = false ∧ isTokenChar colon = false ∧
      isTokenChar cr = false ∧ isTokenChar lf = false := by
  decide +kernel

theorem isTokenChar_of_blank {c : UInt8} (h : isBlank c = true) : isTokenChar c = false := by
  rw [isBlank, Bool.or_eq_true, beq_iff_eq, beq_iff_eq] at h
  rcases h with rfl | rfl
  · exact isTokenChar_separators.1
  · exact isTokenChar_separators.2.1

theorem not_lineEnd_of_token {c : UInt8} (h : isTokenChar c = true) :
    (c = cr || c = lf) = false := by
  obtain ⟨-, -, -, hcr, hlf⟩ := isTokenChar_separators
  rw [Bool.or_eq_false_iff, decide_eq_false_iff_not, decide_eq_false_iff_not]
  constructor
  · intro heq
    rw [heq, hcr] at h
    cases h
  · intro heq
    rw [heq, hlf] at h
    cases h

theorem isCtl_of_blank {c : UInt8} (h : isBlank c = true) : isCtl c = false := by
  rw [isBlank, Bool.or_eq_true, beq_iff_eq, beq_iff_eq] at h
  rcases h with rfl | rfl <;> rfl

theorem HeaderLine.shown_printable (l : HeaderLine) : ∀ c ∈ l.shown, isCtl c = false := by
  rw [shown, List.forall_mem_append]
  exact ⟨l.printable, fun c hc => isCtl_of_blank (l.behind_blank c hc)⟩

/-- A header line is not the end of the head. -/
theorem HeaderLine.text_head (l : HeaderLine) :
    ∃ c t, l.text = c :: t ∧ (c = cr || c = lf) = false := by
  rw [text, intro]
  cases hname : l.name with
  | some name =>
    obtain ⟨hne, hall⟩ := l.token name hname
    cases name with
    | nil => exact absurd rfl hne
    | cons c name =>
      exact ⟨c, _, rfl, not_lineEnd_of_token (List.forall_mem_cons.mp hall).1⟩
  | none =>
    obtain ⟨-, hblank⟩ := l.continued hname
    rw [← shown] at hblank
    cases hshown : l.shown with
    | nil => rw [hshown] at hblank; cases hblank
    | cons c u =>
      rw [hshown] at hblank
      refine ⟨c, _, rfl, ?_⟩
      have hc : isBlank c = true := hblank
      rw [Bool.or_eq_false_iff, decide_eq_false_iff_not, decide_eq_false_iff_not]
      constructor <;> intro h <;> rw [h] at hc <;> cases hc

/-- The name of a line, and its value up to the end of the line. -/
theorem HeaderLine.parseName_text (l : HeaderLine) {first : Bool}
    (hfirst : first = true → l.name ≠ none) (rest : Str) :
    parseName first (l.text ++ rest) = .ok (l.name, l.shown ++ (l.eol.text ++ rest)) := by
  rw [parseName, text, intro]
  cases hname : l.name with
  | none =>
    obtain ⟨-, hblank⟩ := l.continued hname
    rw [← shown] at hblank
    have hfalse : first = false := by
      cases first with
      | false => rfl
      | true => exact absurd hname (hfirst rfl)
    have hhead : ([] ++ (l.shown ++ l.eol.text) ++ rest).head?.any isBlank = true := by
      cases hshown : l.shown with
      | nil => rw [hshown] at hblank; cases hblank
      | cons c u => rw [hshown] at hblank; exact hblank
    rw [if_pos (by rw [hfalse, hhead]; rfl), List.nil_append, List.append_assoc]
  | some name =>
    obtain ⟨hne, hall⟩ := l.token name hname
    have hhead : ((name ++ colon :: l.before ++ (l.shown ++ l.eol.text)) ++ rest).head?.any
        isBlank = false := by
      cases name with
      | nil => exact absurd rfl hne
      | cons c name =>
        show isBlank c = false
        by_contra hblank
        rw [Bool.not_eq_false] at hblank
        have hc := (List.forall_mem_cons.mp hall).1
        rw [isTokenChar_of_blank hblank] at hc
        cases hc
    rw [if_neg (by rw [hhead, Bool.and_false]; decide)]
    refine bind_ok_iff.mpr ⟨(name, colon :: (l.before ++ (l.shown ++ (l.eol.text ++ rest)))),
      (parseToken_ok_iff isTokenChar_separators.2.2.1).mpr ⟨hall, _, rfl, ?_⟩, ?_⟩
    · simp only [List.append_assoc, List.cons_append]
    · simp only
      rw [if_neg hne]
      refine bind_ok_iff.mpr ⟨l.shown ++ (l.eol.text ++ rest), ?_, rfl⟩
      rw [List.tail_cons]
      refine skipWhile_ok_iff.mpr ⟨l.before, l.before_blank, ?_, rfl⟩
      have hnamed := l.named (by rw [hname]; exact Option.some_ne_none name)
      rw [← shown] at hnamed
      cases hshown : l.shown with
      | nil =>
        cases l.eol with
        | full => exact ⟨cr, lf :: rest, rfl, rfl⟩
        | bare => exact ⟨lf, rest, rfl, rfl⟩
      | cons c u =>
        rw [hshown] at hnamed
        exact ⟨c, _, rfl, hnamed c rfl⟩

theorem HeaderLine.getTokenToEol_shown (l : HeaderLine) (rest : Str) :
    getTokenToEol (l.shown ++ (l.eol.text ++ rest)) = .ok (l.shown, rest) :=
  getTokenToEol_ok_iff.mpr ⟨l.shown_printable, l.eol, rfl⟩

/-- **What is accepted as a header is a header line.** -/
theorem exists_headerLine {first : Bool} {s value token rest : Str} {name : Option Str}
    (hname : parseName first s = .ok (name, value))
    (htoken : getTokenToEol value = .ok (token, rest)) :
    ∃ l : HeaderLine, l.name = name ∧ l.value = trimEnd token ∧
      value = l.shown ++ (l.eol.text ++ rest) ∧ s = l.text ++ rest ∧
      (first = true → l.name ≠ none) := by
  obtain ⟨hctl, e, hvalue⟩ := getTokenToEol_ok_iff.mp htoken
  obtain ⟨behind, htrim, hbehind⟩ := trimEnd_eq token
  have hprintable : ∀ c ∈ trimEnd token, isCtl c = false := fun c hc =>
    hctl c (by rw [htrim]; exact List.mem_append_left _ hc)
  rw [parseName] at hname
  split at hname
  · rename_i hblank
    cases hname
    rw [Bool.and_eq_true, decide_eq_true_eq] at hblank
    refine ⟨⟨none, [], trimEnd token, behind, e, fun n hn => (by cases hn),
      List.forall_mem_nil _, hprintable, hbehind, trimEnd_last token, fun h => absurd rfl h,
      fun _ => ⟨rfl, ?_⟩⟩, rfl, rfl, ?_, ?_, fun h => ?_⟩
    · rw [← htrim]
      cases token with
      | nil =>
        rw [hvalue] at hblank
        cases e <;> exact absurd hblank.2 Bool.false_ne_true
      | cons c u => rw [hvalue] at hblank; exact hblank.2
    · show s = (trimEnd token ++ behind) ++ (e.text ++ rest)
      rw [← htrim]
      exact hvalue
    · show s = [] ++ ((trimEnd token ++ behind) ++ e.text) ++ rest
      rw [← htrim, List.nil_append, List.append_assoc]
      exact hvalue
    · rw [h] at hblank
      exact absurd hblank.1 (by decide)
  · obtain ⟨⟨n, s₁⟩, hn, hname⟩ := bind_ok_iff.mp hname
    simp only at hname
    obtain ⟨hall, t, rfl, hs⟩ := (parseToken_ok_iff isTokenChar_separators.2.2.1).mp hn
    split at hname
    · cases hname
    · rename_i hne
      obtain ⟨u, hskip, hname⟩ := bind_ok_iff.mp hname
      cases hname
      obtain ⟨before, hbefore, ⟨c, v, hrest, hc⟩, ht⟩ := skipWhile_ok_iff.mp hskip
      rw [List.tail_cons] at ht
      refine ⟨⟨some n, before, trimEnd token, behind, e, fun m hm => ?_, hbefore, hprintable,
        hbehind, trimEnd_last token, fun _ x hx => ?_, fun h => absurd h (Option.some_ne_none n)⟩,
        rfl, rfl, ?_, ?_, fun _ => Option.some_ne_none n⟩
      · cases hm
        exact ⟨hne, hall⟩
      · rw [← htrim] at hx
        cases token with
        | nil => exact absurd hx (Option.not_mem_none x)
        | cons d w =>
          obtain rfl : d = x := Option.some.inj hx
          rw [hvalue] at hrest
          rw [(List.cons.inj hrest).1]
          exact hc
      · show value = (trimEnd token ++ behind) ++ (e.text ++ rest)
        rw [← htrim]
        exact hvalue
      · show s = (n ++ colon :: before) ++ ((trimEnd token ++ behind) ++ e.text) ++ rest
        rw [← htrim, hs, ht, hvalue]
        simp only [List.append_assoc, List.cons_append]

theorem parseHeaders_cons (free : ℕ) {first : Bool} {c : UInt8} {t : Str}
    (hc : (c = cr || c = lf) = false) :
    parseHeaders (free + 1) first (c :: t) = (do
      let (name, value) ← parseName first (c :: t)
      let (token, rest) ← getTokenToEol value
      let (headers, rest) ← parseHeaders free false rest
      .ok (⟨name, trimEnd token, value⟩ :: headers, rest)) := by
  rw [parseHeaders, if_neg (by rw [hc]; decide)]

/-- The lines of a head, one after the other. -/
theorem parseHeaders_ok_iff (free : ℕ) : ∀ {first : Bool} {s rest : Str} {hs : List PhrHeader},
    parseHeaders free first s = .ok (hs, rest) ↔
      ∃ (ls : List HeaderLine) (last : Eol), ls.length ≤ free ∧
        (first = true → ∀ l ∈ ls.head?, l.name ≠ none) ∧
        hs = lineHeaders last rest ls ∧ s = linesText last ls ++ rest := by
  induction free with
  | zero =>
    intro first s rest hs
    constructor
    · intro h
      cases s with
      | nil => cases h
      | cons c t =>
        rw [parseHeaders] at h
        split at h
        · obtain ⟨u, hu, heq⟩ := map_ok_iff.mp h
          cases heq
          obtain ⟨e, he⟩ := endOfLine_ok_iff.mp hu
          exact ⟨[], e, Nat.le_refl 0, fun _ l hl => absurd hl (Option.not_mem_none l), rfl, he⟩
        · cases h
    · intro h
      obtain ⟨ls, last, hlen, _, hhs, hs'⟩ := h
      obtain rfl := List.length_eq_zero_iff.mp (Nat.le_zero.mp hlen)
      rw [hs', hhs]
      cases last <;> rfl
  | succ free ih =>
    intro first s rest hs
    constructor
    · intro h
      cases s with
      | nil => cases h
      | cons c t =>
        cases hc : (decide (c = cr) || decide (c = lf)) with
        | true =>
          rw [parseHeaders, if_pos hc] at h
          obtain ⟨u, hu, heq⟩ := map_ok_iff.mp h
          cases heq
          obtain ⟨e, he⟩ := endOfLine_ok_iff.mp hu
          exact ⟨[], e, Nat.zero_le _, fun _ l hl => absurd hl (Option.not_mem_none l), rfl, he⟩
        | false =>
          rw [parseHeaders_cons free hc] at h
          obtain ⟨⟨name, value⟩, hname, h⟩ := bind_ok_iff.mp h
          obtain ⟨⟨token, u⟩, htoken, h⟩ := bind_ok_iff.mp h
          obtain ⟨⟨hs', w⟩, hmore, h⟩ := bind_ok_iff.mp h
          cases h
          obtain ⟨l, rfl, hvalue, rfl, hs, hnamed⟩ := exists_headerLine hname htoken
          obtain ⟨ls, last, hlen, -, rfl, rfl⟩ := ih.mp hmore
          refine ⟨l :: ls, last, Nat.succ_le_succ hlen, fun hfirst m hm => ?_, ?_, ?_⟩
          · cases hm
            exact hnamed hfirst
          · rw [lineHeaders, hvalue]
          · rw [linesText, List.append_assoc]
            exact hs
    · intro h
      obtain ⟨ls, last, hlen, hfirst, hhs, hs'⟩ := h
      cases ls with
      | nil =>
        rw [hs', hhs]
        cases last <;> rfl
      | cons l ls =>
        obtain ⟨c, t, htext, hc⟩ := l.text_head
        rw [linesText, List.append_assoc] at hs'
        have hcons : s = c :: (t ++ (linesText last ls ++ rest)) := by rw [hs', htext]; rfl
        rw [hcons, parseHeaders_cons free hc, ← hcons, hs']
        refine bind_ok_iff.mpr ⟨_, l.parseName_text (fun h => hfirst h l rfl) _, ?_⟩
        refine bind_ok_iff.mpr ⟨_, l.getTokenToEol_shown _, ?_⟩
        refine bind_ok_iff.mpr ⟨(lineHeaders last rest ls, rest), ?_, ?_⟩
        · exact ih.mpr ⟨ls, last, Nat.le_of_succ_le_succ hlen, fun h => (by cases h), rfl, rfl⟩
        · rw [hhs, lineHeaders, l.trimEnd_shown]

/-! ### The head -/

theorem linesText_ne_nil (last : Eol) (ls : List HeaderLine) : linesText last ls ≠ [] := by
  cases ls with
  | nil => cases last <;> exact List.cons_ne_nil _ _
  | cons l ls =>
    obtain ⟨c, t, htext, -⟩ := l.text_head
    rw [linesText, htext]
    exact List.cons_ne_nil _ _

/-- What is skipped before the method. -/
theorem skipEmptyLine_ok_iff {s rest : Str} {c : UInt8} {t : Str} (hrest : rest = c :: t)
    (hc : (c = cr || c = lf) = false) :
    skipEmptyLine s = .ok rest ↔ ∃ lead : Option Eol, s = leadText lead ++ rest := by
  cases s with
  | nil =>
    refine ⟨fun h => (by cases h), fun h => ?_⟩
    obtain ⟨lead, h⟩ := h
    rw [hrest] at h
    exact absurd h.symm (List.append_ne_nil_of_right_ne_nil _ (List.cons_ne_nil _ _))
  | cons d u =>
    rw [skipEmptyLine]
    by_cases hd : (decide (d = cr) || decide (d = lf)) = true
    · rw [if_pos hd, endOfLine_ok_iff]
      constructor
      · intro h
        obtain ⟨e, he⟩ := h
        exact ⟨some e, he⟩
      · intro h
        obtain ⟨lead, h⟩ := h
        cases lead with
        | some e => exact ⟨e, h⟩
        | none =>
          rw [hrest] at h
          rw [(List.cons.inj h).1, hc] at hd
          cases hd
    · rw [if_neg hd]
      constructor
      · intro h
        exact ⟨none, Except.ok.inj h⟩
      · intro h
        obtain ⟨lead, h⟩ := h
        cases lead with
        | none => rw [h]; rfl
        | some e =>
          have hend : (decide (d = cr) || decide (d = lf)) = true := by
            cases e <;> rw [(List.cons.inj h).1] <;> rfl
          exact absurd hend hd

/-- The blanks before the path and before the version. -/
theorem skipBlanks_ok_iff {s rest : Str} {c : UInt8} {t : Str} (hrest : rest = c :: t)
    (hc : c ≠ sp) :
    skipWhile (· == ' ') s = .ok rest ↔ ∃ gap : ℕ, s = List.replicate gap sp ++ rest := by
  rw [skipWhile_ok_iff]
  constructor
  · intro h
    obtain ⟨blanks, hblanks, _, hs⟩ := h
    refine ⟨blanks.length, ?_⟩
    rw [← List.eq_replicate_iff.mpr ⟨rfl, fun b hb => beq_iff_eq.mp (hblanks b hb)⟩]
    exact hs
  · intro h
    obtain ⟨gap, hs⟩ := h
    refine ⟨List.replicate gap sp, fun b hb => ?_, ⟨c, t, hrest, beq_eq_false_iff_ne.mpr hc⟩, hs⟩
    exact beq_iff_eq.mpr (List.eq_of_mem_replicate hb)

theorem isPathChar_ne {c : UInt8} (h : isPathChar c = true) : c ≠ sp := by
  rw [isPathChar, Bool.and_eq_true] at h
  exact bne_iff_ne.mp h.1

/-- The version starts with no blank. -/
theorem version_cons (t : Str) : ascii "HTTP/1." ++ t = 72 :: (ascii "TTP/1." ++ t) := rfl

/-- The last part of the head, from the version on. -/
theorem HeadText.parse_versionText (h : HeadText) {k : ℕ} (hk : h.lines.length ≤ k)
    (rest : Str) :
    parseHttpVersion (h.versionText ++ rest) =
        .ok (digitVal h.minor, h.eol.text ++ (linesText h.last h.lines ++ rest)) ∧
      endOfLine (h.eol.text ++ (linesText h.last h.lines ++ rest)) =
        .ok (linesText h.last h.lines ++ rest) ∧
      parseHeaders k true (linesText h.last h.lines ++ rest) =
        .ok (lineHeaders h.last rest h.lines, rest) := by
  refine ⟨parseHttpVersion_ok_iff.mpr ⟨h.minor, h.minor_digit, rfl, ?_, ?_⟩,
    endOfLine_ok_iff.mpr ⟨h.eol, rfl⟩,
    (parseHeaders_ok_iff k).mpr ⟨h.lines, h.last, hk, fun _ => h.first_named, rfl, rfl⟩⟩
  · exact List.append_ne_nil_of_right_ne_nil _
      (List.append_ne_nil_of_left_ne_nil (linesText_ne_nil _ _) _)
  · simp only [versionText, List.append_assoc, List.cons_append]

theorem HeadText.parseRequest_text (h : HeadText) {k : ℕ} (hk : h.lines.length ≤ k)
    (rest : Str) : parseRequest k (h.text ++ rest) = .ok (h.request rest, rest) := by
  obtain ⟨hversion, hend, hlines⟩ := h.parse_versionText hk rest
  obtain ⟨m, method, hmethod⟩ := List.exists_cons_of_ne_nil h.method_ne
  obtain ⟨p, path, hpath⟩ := List.exists_cons_of_ne_nil h.path_ne
  have hm : isTokenChar m = true := h.method_token m (by rw [hmethod]; exact List.mem_cons_self)
  have hp : isPathChar p = true := h.path_plain p (by rw [hpath]; exact List.mem_cons_self)
  have hpathText : ∀ t, h.path ++ t = p :: (path ++ t) := fun t => by rw [hpath]; rfl
  have hmethodText : ∀ t, h.method ++ t = m :: (method ++ t) := fun t => by rw [hmethod]; rfl
  rw [parseRequest, text]
  simp only [List.append_assoc, List.cons_append]
  refine bind_ok_iff.mpr ⟨_, (skipEmptyLine_ok_iff (hmethodText _)
    (not_lineEnd_of_token hm)).mpr ⟨h.lead, rfl⟩, ?_⟩
  refine bind_ok_iff.mpr ⟨(h.method, _), (parseToken_ok_iff isTokenChar_separators.1).mpr
    ⟨h.method_token, _, rfl, rfl⟩, ?_⟩
  refine bind_ok_iff.mpr ⟨_, (skipBlanks_ok_iff (hpathText _) (isPathChar_ne hp)).mpr
    ⟨h.gap, rfl⟩, ?_⟩
  refine bind_ok_iff.mpr ⟨(h.path, _), advanceToken_ok_iff.mpr ⟨h.path_plain, _, rfl, rfl⟩, ?_⟩
  refine bind_ok_iff.mpr ⟨h.versionText ++ rest, (skipBlanks_ok_iff
    (version_cons _) (by decide)).mpr ⟨h.gap', rfl⟩, ?_⟩
  simp only [h.method_ne, h.path_ne, decide_false, Bool.or_self, Bool.false_eq_true, if_false]
  exact bind_ok_iff.mpr ⟨_, hversion, bind_ok_iff.mpr ⟨_, hend, bind_ok_iff.mpr ⟨_, hlines, rfl⟩⟩⟩

/-- What a parse that succeeds has read. -/
theorem exists_headText {k : ℕ} {s rest : Str} {parsed : PhrRequest}
    (h : parseRequest k s = .ok (parsed, rest)) :
    ∃ head : HeadText, head.lines.length ≤ k ∧ parsed = head.request rest ∧
      s = head.text ++ rest := by
  rw [parseRequest] at h
  obtain ⟨s₁, hlead, h⟩ := bind_ok_iff.mp h
  obtain ⟨⟨method, s₂⟩, hmethod, h⟩ := bind_ok_iff.mp h
  obtain ⟨s₃, hgap, h⟩ := bind_ok_iff.mp h
  obtain ⟨⟨path, s₄⟩, hpath, h⟩ := bind_ok_iff.mp h
  obtain ⟨s₅, hgap', h⟩ := bind_ok_iff.mp h
  simp only at h hgap hgap'
  split at h
  · cases h
  · rename_i hne
    rw [Bool.or_eq_true, decide_eq_true_eq, decide_eq_true_eq, not_or] at hne
    obtain ⟨⟨v, s₆⟩, hversion, h⟩ := bind_ok_iff.mp h
    obtain ⟨s₇, hend, h⟩ := bind_ok_iff.mp h
    obtain ⟨⟨headers, s₈⟩, hheaders, h⟩ := bind_ok_iff.mp h
    cases h
    obtain ⟨htoken, t₂, rfl, rfl⟩ := (parseToken_ok_iff isTokenChar_separators.1).mp hmethod
    obtain ⟨hplain, t₄, rfl, rfl⟩ := advanceToken_ok_iff.mp hpath
    obtain ⟨minor, hminor, rfl, -, hs₅⟩ := parseHttpVersion_ok_iff.mp hversion
    obtain ⟨eol, rfl⟩ := endOfLine_ok_iff.mp hend
    obtain ⟨ls, last, hlen, hnamed, rfl, rfl⟩ := (parseHeaders_ok_iff k).mp hheaders
    obtain ⟨m, method, rfl⟩ := List.exists_cons_of_ne_nil hne.1
    obtain ⟨p, path, rfl⟩ := List.exists_cons_of_ne_nil hne.2
    obtain ⟨lead, rfl⟩ := (skipEmptyLine_ok_iff List.cons_append
      (not_lineEnd_of_token (List.forall_mem_cons.mp htoken).1)).mp hlead
    obtain ⟨gap, ht₂⟩ := (skipBlanks_ok_iff List.cons_append
      (isPathChar_ne (List.forall_mem_cons.mp hplain).1)).mp hgap
    obtain ⟨gap', ht₄⟩ := (skipBlanks_ok_iff (hs₅.trans (version_cons _)) (by decide)).mp hgap'
    rw [List.tail_cons] at ht₂ ht₄
    refine ⟨⟨lead, m :: method, gap, p :: path, gap', minor, eol, ls, last, hne.1, htoken, hne.2,
      hplain, hminor, hnamed rfl⟩, hlen, rfl, ?_⟩
    rw [HeadText.text, HeadText.versionText, ht₂, ht₄, hs₅]
    simp only [List.append_assoc, List.cons_append]

/-- **The parser accepts the inputs that start with the head of a request**, with no more header
lines than there is room for, and returns what that head says and how long it is. -/
theorem phrParseRequest_iff (k : ℕ) (s : Str) (parsed : PhrRequest) (n : ℕ) :
    phrParseRequest k s = .ok (parsed, n) ↔
      ∃ (head : HeadText) (rest : Str), head.lines.length ≤ k ∧ s = head.text ++ rest ∧
        parsed = head.request rest ∧ n = head.text.length := by
  rw [phrParseRequest, map_ok_iff]
  constructor
  · intro h
    obtain ⟨⟨r, rest⟩, hparse, heq⟩ := h
    cases heq
    obtain ⟨head, hk, hr, hs⟩ := exists_headText hparse
    refine ⟨head, rest, hk, hs, hr, ?_⟩
    simp only
    rw [hs, List.length_append, Nat.add_sub_cancel]
  · intro h
    obtain ⟨head, rest, hk, hs, hr, hn⟩ := h
    refine ⟨(head.request rest, rest), by rw [hs]; exact head.parseRequest_text hk rest, ?_⟩
    simp only
    rw [hs, List.length_append, Nat.add_sub_cancel, hr, hn]

end Rojcpp.Http
