import Rojcpp.Cpp.Files
import Rojcpp.Http.Buffers
import Rojcpp.Http.PicoParser

/-!
# `rojcpp::request`

What `parse_header` makes of the bytes received so far.  `m_header_len` and `m_body_len` have no
initial value in the source, so they are `none` until a call stores them.

What a failed parse leaves in the fields it had already reached is not modelled: the parsed
request is `none` after it.
-/

namespace Rojcpp.Http

open Rojcpp.Lib

/-- The byte `?`. -/
abbrev question : UInt8 := '?'

/-- `request`, the parts `parse_header` and `body` use. -/
structure Request where
  buff : Buffer
  parsed : Option PhrRequest
  headerLen : Option ℕ
  bodyLen : Option ℕ
  path : Str
  queryMap : List (Str × Str)
  deriving DecidableEq, Repr

/-- A request as the session's constructor leaves it. -/
def Request.init : Request := ⟨Buffer.init, none, none, none, [], []⟩

/-- `std::tolower` in the C locale. -/
def toLower (c : UInt8) : UInt8 := if 65 ≤ c && c ≤ 90 then c + 32 else c

/-- `iequal`. -/
def iequal (s t : Str) : Bool := s.map toLower == t.map toLower

/-- `get_header_value`: the value of the first header with this name, here with the memory it
points into.  The result is empty when there is none. -/
def getHeaderValue (headers : List PhrHeader) (key : Str) : Str × Str :=
  match headers.find? fun h => iequal (h.name.getD []) key with
  | some h => (h.value, h.data)
  | none => ([], [])

/-- What `parse_header` stores as the body's length: an absent or empty value is 0, and any other
goes through `atoll`, which reads from the value's first byte and not up to its last, and then to
`std::size_t`. -/
def contentLength (headers : List PhrHeader) : ℕ :=
  let header_value := getHeaderValue headers (ascii "content-length")
  if header_value.1 = [] then 0 else (atoll header_value.2).toUInt64.toNat

/-- `trim`: blanks only. -/
def trim (v : Str) : Str :=
  ((v.dropWhile fun (c : UInt8) => c == ' ').reverse.dropWhile fun (c : UInt8) => c == ' ').reverse

/-- `std::map::emplace`, which keeps an entry that is there. -/
def emplace (map : List (Str × Str)) (key val : Str) : List (Str × Str) :=
  if map.any fun e => e.1 == key then map else map ++ [(key, val)]

/-- The loop of `parse_query`: `cur` is the text from `pos` on, and `moved` says that `pos` is no
longer 0.  A key stays the current one until the next `=`. -/
def parseQueryLoop (key cur : Str) (moved : Bool) (map : List (Str × Str)) :
    Str → List (Str × Str)
  | [] =>
    if moved = false then []
    else if cur = [] then emplace map key []
    else emplace map key (trim cur)
  | c :: t =>
    if c = '=' then parseQueryLoop (trim cur) [] true map t
    else if c = '&' then parseQueryLoop key [] true (emplace map key (trim cur)) t
    else parseQueryLoop key (cur ++ [c]) moved map t

/-- `parse_query`. -/
def parseQuery (str : Str) : List (Str × Str) := parseQueryLoop [] [] false [] str

/-- `parse_header`: the value it returns and the request after it.  The length of the head is
converted to `int` on the way; both lengths are stored before the url is checked. -/
def Request.parseHeader (r : Request) : Int32 × Request :=
  match phrParseRequest 32 r.buff.data with
  | .error e => (e.ret, { r with parsed := none })
  | .ok (parsed, n) =>
    let header_len := Int32.ofNat n
    let r := { r with parsed := some parsed }
    if header_len < 0 then (header_len, r)
    else
      let r := { r with
        headerLen := some header_len.toInt.toNat
        bodyLen := some (contentLength parsed.headers) }
      if slash ∉ parsed.path then (-1, r)
      else if question ∈ parsed.path then
        (header_len, { r with
          path := parsed.path.takeWhile fun c => c != question
          queryMap := parseQuery (parsed.path.dropWhile fun c => c != question).tail })
      else (header_len, { r with path := parsed.path })

/-- `body`: the `body_len()` bytes from `header_len()` on, and `none` when this view is not
determined or does not lie inside the used part of the buffer. -/
def Request.body (r : Request) : Option Str :=
  match r.headerLen, r.bodyLen with
  | some h, some b => if h + b ≤ r.buff.usedSize then some ((r.buff.data.drop h).take b) else none
  | _, _ => none

/-! ### The length a head states -/

/-- The number the `Content-Length` header's value states, read as `atoll` reads it; no header and
an empty value state 0. -/
def statedLength (headers : List PhrHeader) : ℕ :=
  let value := (getHeaderValue headers (ascii "content-length")).1
  if value = [] then 0 else (atoll value).toUInt64.toNat

theorem takeWhile_append_stop {p : UInt8 → Bool} (u t : Str) (c : UInt8) (hc : p c = false) :
    (u ++ c :: t).takeWhile p = u.takeWhile p := by
  induction u with
  | nil => rw [List.nil_append, List.takeWhile_cons_of_neg (by simp [hc]), List.takeWhile_nil]
  | cons d u ih =>
    rw [List.cons_append, List.takeWhile_cons, List.takeWhile_cons, ih]

theorem scanSign_append (d : UInt8) (u t : Str) :
    scanSign (d :: u ++ t) = ((scanSign (d :: u)).1, (scanSign (d :: u)).2 ++ t) := by
  rw [List.cons_append, scanSign, scanSign]
  split
  · rfl
  · split <;> rfl

/-- A number read from memory is the number the text states, when a byte that is no digit stands
behind the text and the text does not start with white space. -/
theorem atoll_append (d : UInt8) (u t : Str) (c : UInt8) (hc : isDigit c = false)
    (hd : isSpace d = false) : atoll (d :: u ++ c :: t) = atoll (d :: u) := by
  have hdrop : ∀ v : Str, (d :: v).dropWhile isSpace = d :: v := fun v =>
    List.dropWhile_cons_of_neg (by simp [hd])
  have hscan : (scanInt (d :: u ++ c :: t)).1 = (scanInt (d :: u)).1 := by
    rw [scanInt, scanInt, scanSign_append]
    simp only [takeWhile_append_stop _ t c hc]
    split <;> rfl
  rw [atoll, atoll, List.cons_append, hdrop, hdrop, ← List.cons_append, hscan]

/-- **`atoll` does not read into the next line**: what is stored as the body's length is the
number the header's value states. -/
theorem contentLength_eq {maxHeaders : ℕ} {s : Str} {parsed : PhrRequest} {n : ℕ}
    (h : phrParseRequest maxHeaders s = .ok (parsed, n)) :
    contentLength parsed.headers = statedLength parsed.headers := by
  have hall := phrParseRequest_delimited h
  rw [contentLength, statedLength, getHeaderValue]
  cases hfind : parsed.headers.find?
      fun h => iequal (h.name.getD []) (ascii "content-length") with
  | none => rfl
  | some e =>
    simp only
    obtain ⟨⟨c, rest, hdata, hc⟩, hhead⟩ := hall e (List.mem_of_find?_eq_some hfind)
    have hname : e.name ≠ none := by
      intro hnone
      have hequal := List.find?_some hfind
      rw [hnone] at hequal
      exact absurd hequal (by decide)
    cases hvalue : e.value with
    | nil => rfl
    | cons d u =>
      have hd : isSpace d = false := hhead hname d (by rw [hvalue]; rfl)
      rw [hdata, hvalue, atoll_append d u rest c hc hd]

/-! ### What `parse_header` does -/

theorem Request.parseHeader_error (r : Request) (e : PhrError)
    (h : phrParseRequest 32 r.buff.data = .error e) :
    r.parseHeader = (e.ret, { r with parsed := none }) := by
  rw [parseHeader, h]

section
variable (r : Request) {parsed : PhrRequest} {n : ℕ}
  (h : phrParseRequest 32 r.buff.data = .ok (parsed, n))
include h

/-- A head so long that its length is a negative `int` comes back before any length is stored. -/
theorem Request.parseHeader_negative (hneg : Int32.ofNat n < 0) :
    r.parseHeader = (Int32.ofNat n, { r with parsed := some parsed }) := by
  rw [parseHeader, h]
  simp only
  rw [if_pos hneg]

/-- A url without a slash is a parse error, found after both lengths are stored. -/
theorem Request.parseHeader_noSlash (hneg : ¬ Int32.ofNat n < 0) (hslash : slash ∉ parsed.path) :
    r.parseHeader = (-1, { r with
      parsed := some parsed
      headerLen := some (Int32.ofNat n).toInt.toNat
      bodyLen := some (contentLength parsed.headers) }) := by
  rw [parseHeader, h]
  simp only
  rw [if_neg hneg, if_pos hslash]

/-- The parse that succeeds. -/
theorem Request.parseHeader_complete (hneg : ¬ Int32.ofNat n < 0) (hslash : slash ∈ parsed.path) :
    ∃ next, r.parseHeader = (Int32.ofNat n, next) ∧ next.buff = r.buff ∧
      next.headerLen = some (Int32.ofNat n).toInt.toNat ∧
      next.bodyLen = some (contentLength parsed.headers) := by
  rw [parseHeader, h]
  simp only
  rw [if_neg hneg, if_neg (not_not_intro hslash)]
  by_cases hquery : question ∈ parsed.path
  · rw [if_pos hquery]
    exact ⟨_, rfl, rfl, rfl, rfl⟩
  · rw [if_neg hquery]
    exact ⟨_, rfl, rfl, rfl, rfl⟩

end

end Rojcpp.Http
