import Mathlib.Data.List.TakeWhile
import Rojcpp.Cpp.Text

/-!
# The header parser `phr_parse_request`

The parser of `picohttpparser.c` as the program calls it, with `last_len` 0, so that every call
starts at the first byte.  A pointer into the input is the rest of the input from there on, and
a `NULL` result with `*ret` set is an error with that value.

The SSE variants only skip bytes that the plain loops accept one by one, so the plain loops are
what is modelled here.
-/

namespace Rojcpp.Http

open Rojcpp.Lib

/-- Carriage return. -/
abbrev cr : UInt8 := 13

/-- Line feed. -/
abbrev lf : UInt8 := 10

/-- Horizontal tab. -/
abbrev ht : UInt8 := 9

/-- The two values of `*ret`: `-2` when the input ends too early, `-1` when it is no request. -/
inductive PhrError where
  | incomplete
  | malformed
  deriving DecidableEq, Repr

/-- The value a failing call returns. -/
def PhrError.ret : PhrError → Int32
  | .incomplete => -2
  | .malformed => -1

/-- `struct phr_header`.  The name is `none` (`NULL`, of length 0) on a continuation line.  The
value is a pointer and a length; `data` is the input from that pointer to its end, because the
caller hands the bare pointer to `atoll`. -/
structure PhrHeader where
  name : Option Str
  value : Str
  data : Str
  deriving DecidableEq, Repr

/-- What a successful parse stores through its output pointers. -/
structure PhrRequest where
  method : Str
  path : Str
  minorVersion : ℕ
  headers : List PhrHeader
  deriving DecidableEq, Repr

/-- `token_char_map` for the first 128 bytes; the rest of the table is zero. -/
def tokenCharMap : List Char :=
  ("00000000000000000000000000000000" ++ "01011111001101101111111111000000" ++
   "01111111111111111111111111100011" ++ "11111111111111111111111111101010").toList

/-- `token_char_map[c]`. -/
def isTokenChar (c : UInt8) : Bool := tokenCharMap[c.toNat]? == some '1'

/-- A control character other than the tab. -/
def isCtl (c : UInt8) : Bool := (c < 32 && c != ht) || c == 127

/-- A blank or a tab. -/
def isBlank (c : UInt8) : Bool := c == ' ' || c == ht

/-- `EXPECT_CHAR`. -/
def expectChar (ch : UInt8) : Str → Except PhrError Str
  | [] => .error .incomplete
  | c :: t => if c = ch then .ok t else .error .malformed

/-- `parse_token`: the bytes up to `next_char`, which stays in the input. -/
def parseToken (next_char : UInt8) : Str → Except PhrError (Str × Str)
  | [] => .error .incomplete
  | c :: t =>
    if c = next_char then .ok ([], c :: t)
    else if isTokenChar c = false then .error .malformed
    else (parseToken next_char t).map fun r => (c :: r.1, r.2)

/-- `ADVANCE_TOKEN`: the bytes up to the next blank, which stays in the input. -/
def advanceToken : Str → Except PhrError (Str × Str)
  | [] => .error .incomplete
  | c :: t =>
    if c = ' ' then .ok ([], c :: t)
    else if c < 32 || c == 127 then .error .malformed
    else (advanceToken t).map fun r => (c :: r.1, r.2)

/-- Advance to the first byte that is not of the kind `skip`, which must exist. -/
def skipWhile (skip : UInt8 → Bool) : Str → Except PhrError Str
  | [] => .error .incomplete
  | c :: t => if skip c then skipWhile skip t else .ok (c :: t)

/-- The end of a line, by `CR LF` or a bare `LF`. -/
def endOfLine : Str → Except PhrError Str
  | [] => .error .incomplete
  | c :: t => if c = cr then expectChar lf t else if c = lf then .ok t else .error .malformed

/-- `get_token_to_eol`: the rest of the line, and what follows its end. -/
def getTokenToEol : Str → Except PhrError (Str × Str)
  | [] => .error .incomplete
  | c :: t =>
    if isCtl c then (endOfLine (c :: t)).map fun rest => ([], rest)
    else (getTokenToEol t).map fun r => (c :: r.1, r.2)

/-- `parse_http_version`: nine bytes must be there before the first of them is looked at. -/
def parseHttpVersion (s : Str) : Except PhrError (ℕ × Str) :=
  if s.length < 9 then .error .incomplete
  else if s.take 7 = ascii "HTTP/1." then
    match s.drop 7 with
    | [] => .error .incomplete
    | c :: t => if isDigit c then .ok (digitVal c, t) else .error .malformed
  else .error .malformed

/-- Remove trailing blanks and tabs. -/
def trimEnd (v : Str) : Str := (v.reverse.dropWhile isBlank).reverse

/-- The name of a header line and the input at its value.  A line that starts with a blank
continues the header before it and has no name, unless it is the first line. -/
def parseName (first : Bool) (s : Str) : Except PhrError (Option Str × Str) :=
  if first = false && s.head?.any isBlank then .ok (none, s)
  else do
    let (name, s) ← parseToken ':' s
    if name = [] then .error .malformed
    else do
      let s ← skipWhile isBlank s.tail
      .ok (some name, s)

/-- `parse_headers`, with the number of free places in the caller's array. -/
def parseHeaders : ℕ → Bool → Str → Except PhrError (List PhrHeader × Str)
  | _, _, [] => .error .incomplete
  | free, first, c :: t =>
    if c = cr || c = lf then (endOfLine (c :: t)).map fun rest => ([], rest)
    else
      match free with
      | 0 => .error .malformed
      | free + 1 => do
        let (name, value) ← parseName first (c :: t)
        let (token, rest) ← getTokenToEol value
        let (headers, rest) ← parseHeaders free false rest
        .ok (⟨name, trimEnd token, value⟩ :: headers, rest)

/-- Skip the empty line some clients send after a body. -/
def skipEmptyLine : Str → Except PhrError Str
  | [] => .error .incomplete
  | c :: t => if c = cr || c = lf then endOfLine (c :: t) else .ok (c :: t)

/-- `parse_request`. -/
def parseRequest (maxHeaders : ℕ) (s : Str) : Except PhrError (PhrRequest × Str) := do
  let s ← skipEmptyLine s
  let (method, s) ← parseToken ' ' s
  let s ← skipWhile (· == ' ') s.tail
  let (path, s) ← advanceToken s
  let s ← skipWhile (· == ' ') s.tail
  if method = [] || path = [] then .error .malformed
  else do
    let (minorVersion, s) ← parseHttpVersion s
    let s ← endOfLine s
    let (headers, s) ← parseHeaders maxHeaders true s
    .ok (⟨method, path, minorVersion, headers⟩, s)

/-- `phr_parse_request`: the request and the number of bytes its head takes, before the
conversion of that number to `int`. -/
def phrParseRequest (maxHeaders : ℕ) (s : Str) : Except PhrError (PhrRequest × ℕ) :=
  (parseRequest maxHeaders s).map fun r => (r.1, s.length - r.2.length)

example : phrParseRequest 32 (ascii "GET /a HTTP/1.1\r\nA: b \r\n\r\nxyz") =
    .ok (⟨ascii "GET", ascii "/a", 1,
      [⟨some (ascii "A"), ascii "b", ascii "b \r\n\r\nxyz"⟩]⟩, 26) := by decide +kernel

/-! ### Where a header's value ends -/

/-- What the parser promises about a header: behind its value stands a byte that is no digit, and
the value of a header with a name does not start with white space. -/
def PhrHeader.Delimited (h : PhrHeader) : Prop :=
  (∃ c rest, h.data = h.value ++ c :: rest ∧ isDigit c = false) ∧
  (h.name ≠ none → ∀ c ∈ h.value.head?, isSpace c = false)

theorem endOfLine_head {c : UInt8} {t rest : Str} (h : endOfLine (c :: t) = .ok rest) :
    c = cr ∨ c = lf := by
  rw [endOfLine] at h
  by_cases hcr : c = cr
  · exact .inl hcr
  · by_cases hlf : c = lf
    · exact .inr hlf
    · rw [if_neg hcr, if_neg hlf] at h
      cases h

/-- A line is its token, its end, and what follows; no byte of the token is a control byte. -/
theorem getTokenToEol_eq {s token rest : Str} (h : getTokenToEol s = .ok (token, rest)) :
    (∃ c t, s = token ++ c :: t ∧ (c = cr ∨ c = lf)) ∧ ∀ c ∈ token, isCtl c = false := by
  induction s generalizing token with
  | nil => cases h
  | cons c t ih =>
    rw [getTokenToEol] at h
    by_cases hc : isCtl c = true
    · rw [if_pos hc] at h
      cases hend : endOfLine (c :: t) with
      | error e => rw [hend] at h; cases h
      | ok r =>
        rw [hend] at h
        cases h
        exact ⟨⟨c, t, rfl, endOfLine_head hend⟩, by simp⟩
    · rw [if_neg hc] at h
      cases htok : getTokenToEol t with
      | error e => rw [htok] at h; cases h
      | ok r =>
        rw [htok] at h
        cases h
        obtain ⟨⟨d, u, rfl, hd⟩, hall⟩ := ih htok
        refine ⟨⟨d, u, rfl, hd⟩, fun x hx => ?_⟩
        rcases List.mem_cons.mp hx with rfl | hx
        · exact Bool.eq_false_iff.mpr hc
        · exact hall x hx

theorem trimEnd_eq (v : Str) :
    ∃ blanks, v = trimEnd v ++ blanks ∧ ∀ c ∈ blanks, isBlank c = true := by
  refine ⟨(v.reverse.takeWhile isBlank).reverse, ?_, fun c hc => ?_⟩
  · rw [trimEnd, ← List.reverse_append, List.takeWhile_append_dropWhile, List.reverse_reverse]
  · exact List.mem_takeWhile_imp (List.mem_reverse.mp hc)

theorem skipWhile_head {skip : UInt8 → Bool} {s rest : Str} (h : skipWhile skip s = .ok rest) :
    ∀ c ∈ rest.head?, skip c = false := by
  induction s with
  | nil => cases h
  | cons c t ih =>
    rw [skipWhile] at h
    by_cases hc : skip c = true
    · rw [if_pos hc] at h
      exact ih h
    · rw [if_neg hc] at h
      cases h
      intro d hd
      obtain rfl : c = d := Option.some.inj hd
      exact Bool.eq_false_iff.mpr hc

/-- The value of a header with a name starts behind all blanks. -/
theorem parseName_head {first : Bool} {s value name : Str}
    (h : parseName first s = .ok (some name, value)) : ∀ c ∈ value.head?, isBlank c = false := by
  rw [parseName] at h
  split at h
  · cases h
  · obtain ⟨r, -, h⟩ := bind_ok_iff.mp h
    simp only at h
    split at h
    · cases h
    · obtain ⟨u, hskip, h⟩ := bind_ok_iff.mp h
      cases h
      exact skipWhile_head hskip

theorem isSpace_eq_false {c : UInt8} (hctl : isCtl c = false) (hblank : isBlank c = false) :
    isSpace c = false := by
  simp only [isCtl, isBlank, isSpace, Bool.or_eq_false_iff, Bool.and_eq_false_iff,
    bne_eq_false_iff_eq, decide_eq_false_iff_not, beq_eq_false_iff_ne, UInt8.lt_iff_toNat_lt,
    UInt8.le_iff_toNat_le] at *
  refine ⟨hblank.1, ?_⟩
  have h32 : (32 : UInt8).toNat = 32 := rfl
  have h13 : (13 : UInt8).toNat = 13 := rfl
  rcases hctl.1 with h | h
  · right
    omega
  · exact absurd h hblank.2

theorem isDigit_of_blank {c : UInt8} (h : isBlank c = true ∨ c = cr ∨ c = lf) :
    isDigit c = false := by
  simp only [isBlank, Bool.or_eq_true, beq_iff_eq] at h
  rcases h with (rfl | rfl) | rfl | rfl <;> rfl

/-- One header line. -/
theorem header_delimited {first : Bool} {s value token rest : Str} {name : Option Str}
    (hname : parseName first s = .ok (name, value))
    (htoken : getTokenToEol value = .ok (token, rest)) :
    PhrHeader.Delimited ⟨name, trimEnd token, value⟩ := by
  obtain ⟨⟨c, t, hvalue, hc⟩, hctl⟩ := getTokenToEol_eq htoken
  obtain ⟨blanks, htrim, hblanks⟩ := trimEnd_eq token
  constructor
  · show ∃ c rest, value = trimEnd token ++ c :: rest ∧ isDigit c = false
    cases blanks with
    | nil =>
      refine ⟨c, t, ?_, isDigit_of_blank (.inr hc)⟩
      rw [List.append_nil] at htrim
      rw [← htrim, hvalue]
    | cons b bs =>
      refine ⟨b, bs ++ c :: t, ?_, isDigit_of_blank (.inl (hblanks b (by simp)))⟩
      rw [hvalue, ← List.cons_append, ← List.append_assoc, ← htrim]
  · show name ≠ none → ∀ c ∈ (trimEnd token).head?, isSpace c = false
    intro hne x hx
    obtain ⟨n, rfl⟩ := Option.ne_none_iff_exists'.mp hne
    obtain ⟨u, hu⟩ : ∃ u, trimEnd token = x :: u := by
      cases htoken : trimEnd token with
      | nil => rw [htoken] at hx; cases hx
      | cons y u => rw [htoken] at hx; cases hx; exact ⟨u, rfl⟩
    have hhead : value = x :: (u ++ blanks ++ c :: t) := by
      rw [hvalue, htrim, hu, List.cons_append, List.cons_append]
    apply isSpace_eq_false
    · exact hctl x (by rw [htrim, hu]; simp)
    · exact parseName_head hname x (by rw [hhead]; rfl)

/-- The line that ends the head brings no header. -/
theorem endOfHead_headers {s : Str} {hs : List PhrHeader} {rest : Str}
    (h : ((endOfLine s).map fun rest => (([] : List PhrHeader), rest)) = .ok (hs, rest)) :
    hs = [] := by
  cases hend : endOfLine s with
  | error e => rw [hend] at h; cases h
  | ok r => rw [hend] at h; cases h; rfl

/-- **Every header the parser returns is delimited.** -/
theorem parseHeaders_delimited (free : ℕ) : ∀ (first : Bool) (s : Str) {hs : List PhrHeader}
    {rest : Str}, parseHeaders free first s = .ok (hs, rest) → ∀ h ∈ hs, h.Delimited := by
  induction free with
  | zero =>
    intro first s hs rest hparse
    cases s with
    | nil => cases hparse
    | cons c t =>
      rw [parseHeaders] at hparse
      split at hparse
      · rw [endOfHead_headers hparse]
        exact List.forall_mem_nil _
      · cases hparse
  | succ free ih =>
    intro first s hs rest hparse
    cases s with
    | nil => cases hparse
    | cons c t =>
      rw [parseHeaders] at hparse
      split at hparse
      · rw [endOfHead_headers hparse]
        exact List.forall_mem_nil _
      · obtain ⟨⟨name, value⟩, hname, hparse⟩ := bind_ok_iff.mp hparse
        obtain ⟨⟨token, rest'⟩, htoken, hparse⟩ := bind_ok_iff.mp hparse
        obtain ⟨⟨hs', rest''⟩, hmore, hparse⟩ := bind_ok_iff.mp hparse
        cases hparse
        intro h hh
        rcases List.mem_cons.mp hh with rfl | hh
        · exact header_delimited hname htoken
        · exact ih false rest' hmore h hh

/-- What a parse that succeeds has been through: a method and a path that are not empty, and the
headers. -/
theorem phrParseRequest_ok {maxHeaders : ℕ} {s : Str} {parsed : PhrRequest} {n : ℕ}
    (h : phrParseRequest maxHeaders s = .ok (parsed, n)) :
    parsed.method ≠ [] ∧ parsed.path ≠ [] ∧
      ∃ head rest, parseHeaders maxHeaders true head = .ok (parsed.headers, rest) := by
  rw [phrParseRequest] at h
  cases hreq : parseRequest maxHeaders s with
  | error e => rw [hreq] at h; cases h
  | ok r =>
    rw [hreq] at h
    cases h
    rw [parseRequest] at hreq
    obtain ⟨s₁, -, hreq⟩ := bind_ok_iff.mp hreq
    obtain ⟨⟨method, s₂⟩, -, hreq⟩ := bind_ok_iff.mp hreq
    obtain ⟨s₃, -, hreq⟩ := bind_ok_iff.mp hreq
    obtain ⟨⟨path, s₄⟩, -, hreq⟩ := bind_ok_iff.mp hreq
    obtain ⟨s₅, -, hreq⟩ := bind_ok_iff.mp hreq
    simp only at hreq
    by_cases hempty : (decide (method = []) || decide (path = [])) = true
    · rw [if_pos hempty] at hreq
      cases hreq
    · rw [if_neg hempty] at hreq
      obtain ⟨⟨version, s₆⟩, -, hreq⟩ := bind_ok_iff.mp hreq
      obtain ⟨s₇, -, hreq⟩ := bind_ok_iff.mp hreq
      obtain ⟨⟨headers, s₈⟩, hheaders, hreq⟩ := bind_ok_iff.mp hreq
      cases hreq
      rw [Bool.or_eq_true, decide_eq_true_eq, decide_eq_true_eq, not_or] at hempty
      exact ⟨hempty.1, hempty.2, s₇, s₈, hheaders⟩

theorem phrParseRequest_delimited {maxHeaders : ℕ} {s : Str} {parsed : PhrRequest} {n : ℕ}
    (h : phrParseRequest maxHeaders s = .ok (parsed, n)) : ∀ e ∈ parsed.headers, e.Delimited := by
  obtain ⟨-, -, head, rest, hheaders⟩ := phrParseRequest_ok h
  exact parseHeaders_delimited maxHeaders true head hheaders

end Rojcpp.Http
