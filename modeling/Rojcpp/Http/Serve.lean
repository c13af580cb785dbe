import Rojcpp.Http.Deal
import Rojcpp.Http.Dispatch
import Rojcpp.Http.HeadText
import Rojcpp.Http.Session

/-!
# A request from the socket to its answer

`server::deal` parses again whenever bytes have come, hands the request to `process()`, and sends
what `res_buff()` offers.  Every part of the parser is settled once it does not ask for more, so how
the bytes are cut into reads decides nothing but how much of the body is there when the head is
complete.

The last section puts the parts together: a request that is sent with its body at hand is answered
by what its route's handler leaves in the response, and that answer reaches the client whole.
-/

namespace Rojcpp.Http

open Rojcpp.Lib

/-! ### The parser on an input that grows -/

/-- A result when `t` has come behind the input. -/
def behind {α : Type} (t : Str) (r : α × Str) : α × Str := (r.1, r.2 ++ t)

/-- A header when `t` has come behind the input: only the memory its value points into grows. -/
def PhrHeader.grow (t : Str) (h : PhrHeader) : PhrHeader := { h with data := h.data ++ t }

/-- A request when `t` has come behind the input. -/
def PhrRequest.grow (t : Str) (r : PhrRequest) : PhrRequest :=
  { r with headers := r.headers.map (PhrHeader.grow t) }

section
variable (t : Str)

theorem expectChar_settled (ch : UInt8) (s : Str) :
    Settled .incomplete (· ++ t) (expectChar ch s) (expectChar ch (s ++ t)) := by
  cases s with
  | nil => exact .waiting
  | cons c s =>
    rw [List.cons_append, expectChar, expectChar]
    split
    · exact .ok rfl
    · exact .error _

theorem endOfLine_settled (s : Str) :
    Settled .incomplete (· ++ t) (endOfLine s) (endOfLine (s ++ t)) := by
  cases s with
  | nil => exact .waiting
  | cons c s =>
    rw [List.cons_append, endOfLine, endOfLine]
    split
    · exact expectChar_settled t lf s
    · split
      · exact .ok rfl
      · exact .error _

theorem parseToken_settled (next_char : UInt8) (s : Str) :
    Settled .incomplete (behind t) (parseToken next_char s) (parseToken next_char (s ++ t)) := by
  induction s with
  | nil => exact .waiting
  | cons c s ih =>
    rw [List.cons_append, parseToken, parseToken]
    split
    · exact .ok rfl
    · split
      · exact .error _
      · exact ih.map fun _ => rfl

theorem advanceToken_settled (s : Str) :
    Settled .incomplete (behind t) (advanceToken s) (advanceToken (s ++ t)) := by
  induction s with
  | nil => exact .waiting
  | cons c s ih =>
    rw [List.cons_append, advanceToken, advanceToken]
    split
    · exact .ok rfl
    · split
      · exact .error _
      · exact ih.map fun _ => rfl

theorem skipWhile_settled (skip : UInt8 → Bool) (s : Str) :
    Settled .incomplete (· ++ t) (skipWhile skip s) (skipWhile skip (s ++ t)) := by
  induction s with
  | nil => exact .waiting
  | cons c s ih =>
    rw [List.cons_append, skipWhile, skipWhile]
    split
    · exact ih
    · exact .ok rfl

theorem getTokenToEol_settled (s : Str) :
    Settled .incomplete (behind t) (getTokenToEol s) (getTokenToEol (s ++ t)) := by
  induction s with
  | nil => exact .waiting
  | cons c s ih =>
    rw [List.cons_append, getTokenToEol, getTokenToEol]
    split
    · exact (endOfLine_settled t (c :: s)).map fun _ => rfl
    · exact ih.map fun _ => rfl

theorem parseHttpVersion_settled (s : Str) :
    Settled .incomplete (behind t) (parseHttpVersion s) (parseHttpVersion (s ++ t)) := by
  rw [parseHttpVersion, parseHttpVersion]
  by_cases hshort : s.length < 9
  · rw [if_pos hshort]
    exact .waiting
  · have hlater : ¬ (s ++ t).length < 9 := by
      rw [List.length_append]
      omega
    rw [if_neg hshort, if_neg hlater, List.take_append_of_le_length (by omega),
      List.drop_append_of_le_length (by omega)]
    split
    · cases s.drop 7 with
      | nil => exact .waiting
      | cons c u =>
        simp only [List.cons_append]
        split
        · exact .ok rfl
        · exact .error _
    · exact .error _

/-- What follows a token starts with the byte that ends it. -/
theorem tail_append {c : UInt8} {u s : Str} (h : s = c :: u) : (s ++ t).tail = s.tail ++ t := by
  rw [h]
  rfl

theorem parseName_settled (first : Bool) (s : Str) :
    Settled .incomplete (behind t) (parseName first s) (parseName first (s ++ t)) := by
  cases s with
  | nil =>
    rw [parseName, List.head?_nil, Option.any_none, Bool.and_false]
    exact .waiting
  | cons c s =>
    rw [parseName, parseName, List.cons_append, List.head?_cons, List.head?_cons]
    split
    · exact .ok rfl
    · refine (parseToken_settled t colon (c :: s)).bind fun r hr => ?_
      obtain ⟨-, u, hu, -⟩ := (parseToken_ok_iff isTokenChar_separators.2.2.1).mp hr
      refine .ite (fun _ => .error _) fun _ => ?_
      show Settled _ _ _ (skipWhile isBlank (r.2 ++ t).tail >>= _)
      rw [tail_append t hu]
      exact (skipWhile_settled t isBlank r.2.tail).bind fun _ _ => .ok rfl

theorem parseHeaders_settled (free : ℕ) : ∀ (first : Bool) (s : Str),
    Settled .incomplete (fun r => behind t (r.1.map (PhrHeader.grow t), r.2))
      (parseHeaders free first s) (parseHeaders free first (s ++ t)) := by
  induction free with
  | zero =>
    intro first s
    cases s with
    | nil => exact .waiting
    | cons c s =>
      rw [List.cons_append, parseHeaders, parseHeaders]
      split
      · exact (endOfLine_settled t (c :: s)).map fun _ => rfl
      · exact .error _
  | succ free ih =>
    intro first s
    cases s with
    | nil => exact .waiting
    | cons c s =>
      rw [List.cons_append, parseHeaders, parseHeaders]
      split
      · exact (endOfLine_settled t (c :: s)).map fun _ => rfl
      · refine (parseName_settled t first (c :: s)).bind fun name _ => ?_
        refine (getTokenToEol_settled t name.2).bind fun token _ => ?_
        exact (ih false token.2).bind fun _ _ => .ok rfl

theorem skipEmptyLine_settled (s : Str) :
    Settled .incomplete (· ++ t) (skipEmptyLine s) (skipEmptyLine (s ++ t)) := by
  cases s with
  | nil => exact .waiting
  | cons c s =>
    rw [List.cons_append, skipEmptyLine, skipEmptyLine]
    split
    · exact endOfLine_settled t (c :: s)
    · exact .ok rfl

theorem parseRequest_settled (k : ℕ) (s : Str) :
    Settled .incomplete (fun r => (r.1.grow t, r.2 ++ t)) (parseRequest k s)
      (parseRequest k (s ++ t)) := by
  refine (skipEmptyLine_settled t s).bind fun s₁ _ => ?_
  refine (parseToken_settled t sp s₁).bind fun method hmethod => ?_
  obtain ⟨-, u, hu, -⟩ := (parseToken_ok_iff isTokenChar_separators.1).mp hmethod
  simp only [behind]
  rw [tail_append t hu]
  refine (skipWhile_settled t _ method.2.tail).bind fun s₃ _ => ?_
  refine (advanceToken_settled t s₃).bind fun path hpath => ?_
  obtain ⟨-, v, hv, -⟩ := advanceToken_ok_iff.mp hpath
  simp only [behind]
  rw [tail_append t hv]
  refine (skipWhile_settled t _ path.2.tail).bind fun s₅ _ => ?_
  refine .ite (fun _ => .error _) fun _ => ?_
  refine (parseHttpVersion_settled t s₅).bind fun version _ => ?_
  refine (endOfLine_settled t version.2).bind fun s₇ _ => ?_
  exact (parseHeaders_settled t k true s₇).bind fun _ _ => .ok rfl

/-- **Once the parser does not ask for more, more input changes nothing**: what it has refused it
refuses, and what it has accepted it accepts with the same method, path, names, values and
length. -/
theorem phrParseRequest_settled (k : ℕ) (s : Str) :
    Settled .incomplete (fun r => (r.1.grow t, r.2)) (phrParseRequest k s)
      (phrParseRequest k (s ++ t)) := by
  rw [phrParseRequest, phrParseRequest]
  refine (parseRequest_settled t k s).map fun r => ?_
  simp only [List.length_append, Nat.add_sub_add_right]

end

/-! ### The loop on a stream in pieces -/

/-- A url up to its query. -/
def urlPath (url : Str) : Str := url.takeWhile fun c => c != question

/-- The query of a url. -/
def urlQuery (url : Str) : Str := (url.dropWhile fun c => c != question).tail

/-- The bytes of a piece. -/
def piece (p : UInt8 × Str) : Str := p.1 :: p.2

/-- The bytes of a stream. -/
def streamBytes (ps : List (UInt8 × Str)) : Str := (ps.map piece).flatten

theorem streamBytes_cons (p : UInt8 × Str) (ps : List (UInt8 × Str)) :
    streamBytes (p :: ps) = piece p ++ streamBytes ps := rfl

theorem streamBytes_append (ps qs : List (UInt8 × Str)) :
    streamBytes (ps ++ qs) = streamBytes ps ++ streamBytes qs := by
  rw [streamBytes, List.map_append, List.flatten_append, streamBytes, streamBytes]

/-- The loop has `got` in its buffer and no head yet. -/
def Loop.Waiting (s : Loop) (got : Str) : Prop :=
  s.req.buff.data = got ∧ s.req = { Request.init with buff := s.req.buff }

theorem Loop.init_waiting : Loop.init.Waiting [] := ⟨rfl, rfl⟩

/-- A read while the loop waits: the parser runs on all the bytes there are. -/
theorem dealRead_waiting {s : Loop} {got : Str} (hs : s.Waiting got) (p : UInt8 × Str) :
    ∃ b : Buffer, b.data = got ++ piece p ∧
      ∀ next, Request.parseHeader { Request.init with buff := b } = next →
        dealRead s (.data p.1 p.2) =
          if next.1 = -2 then .reading ⟨next.2, p.2.length + 1⟩
          else if next.1 = -1 then .parseError
          else .processed next.2 := by
  obtain ⟨hdata, hreq⟩ := hs
  refine ⟨s.req.buff.reqBuff.updateUsedSized (piece p), ?_, fun next hnext => ?_⟩
  · rw [Buffer.updateUsedSized_data, Buffer.reqBuff_data, hdata]
  · refine dealRead_data s p.1 p.2 next ?_
    rw [← hnext, hreq]
    rfl

section
variable {s : Loop} {got : Str} (hs : s.Waiting got) (p : UInt8 × Str)
include hs

theorem dealRead_incomplete (h : phrParseRequest 32 (got ++ piece p) = .error .incomplete) :
    ∃ s' : Loop, dealRead s (.data p.1 p.2) = .reading s' ∧ s'.Waiting (got ++ piece p) := by
  obtain ⟨b, hb, hread⟩ := dealRead_waiting hs p
  rw [hread _ (Request.parseHeader_error _ .incomplete (by rw [hb, h]))]
  exact ⟨_, rfl, hb, rfl⟩

theorem dealRead_malformed (h : phrParseRequest 32 (got ++ piece p) = .error .malformed) :
    dealRead s (.data p.1 p.2) = .parseError := by
  obtain ⟨b, hb, hread⟩ := dealRead_waiting hs p
  rw [hread _ (Request.parseHeader_error _ .malformed (by rw [hb, h]))]
  rfl

end

/-- What the request tells the session about the head `h`, when `got` has been received. -/
structure Request.Sees (req : Request) (h : HeadText) (got : Str) : Prop where
  buffered : req.buff.data = got
  parsed : ∃ rest, got = h.text ++ rest ∧ req.parsed = some (h.request rest)
  headerLen : req.headerLen = some h.text.length
  bodyLen : req.bodyLen = some (statedLength (h.request []).headers)
  path : req.path = urlPath h.path
  queryMap : req.queryMap = parseQuery (urlQuery h.path)

/-- The names and values of the headers do not depend on what stands behind the head. -/
theorem lineHeaders_fields (last : Eol) (rest : Str) (ls : List HeaderLine) :
    (lineHeaders last rest ls).map (fun e => (e.name, e.value)) =
      ls.map fun l => (l.name, l.value) := by
  induction ls with
  | nil => rfl
  | cons l ls ih => rw [lineHeaders, List.map_cons, List.map_cons, ih]

theorem getHeaderValue_fields {hs hs' : List PhrHeader} (key : Str)
    (h : hs.map (fun e => (e.name, e.value)) = hs'.map fun e => (e.name, e.value)) :
    (getHeaderValue hs key).1 = (getHeaderValue hs' key).1 := by
  induction hs generalizing hs' with
  | nil =>
    rw [List.map_eq_nil_iff.mp h.symm]
  | cons e hs ih =>
    cases hs' with
    | nil => cases h
    | cons e' hs' =>
      obtain ⟨hfields, htail⟩ := List.cons.inj h
      obtain ⟨hname, hvalue⟩ := Prod.mk.inj hfields
      have hmore := ih htail
      rw [getHeaderValue, List.find?_cons, getHeaderValue, List.find?_cons, hname]
      cases iequal (e'.name.getD []) key with
      | true => exact hvalue
      | false => exact hmore

theorem statedLength_fields {hs hs' : List PhrHeader}
    (h : hs.map (fun e => (e.name, e.value)) = hs'.map fun e => (e.name, e.value)) :
    statedLength hs = statedLength hs' := by
  rw [statedLength, statedLength, getHeaderValue_fields _ h]

theorem HeadText.statedLength_request (h : HeadText) (rest : Str) :
    statedLength (h.request rest).headers = statedLength (h.request []).headers :=
  statedLength_fields ((lineHeaders_fields _ _ _).trans (lineHeaders_fields _ _ _).symm)

/-- The call of `parse_header` that finds the head complete. -/
theorem Request.parseHeader_head (h : HeadText) (hlines : h.lines.length ≤ 32) (b : Buffer)
    (rest : Str) (hb : b.data = h.text ++ rest) (hint : h.text.length < 2 ^ 31) :
    ∃ next : Request, Request.parseHeader { Request.init with buff := b } =
        (if slash ∈ h.path then Int32.ofNat h.text.length else -1, next) ∧
      (slash ∈ h.path → next.Sees h (h.text ++ rest)) := by
  have hok : phrParseRequest 32 b.data = .ok (h.request rest, h.text.length) :=
    (phrParseRequest_iff 32 _ _ _).mpr ⟨h, rest, hlines, hb, rfl, rfl⟩
  have htoInt : (Int32.ofNat h.text.length).toInt = h.text.length := Int32.toInt_ofNat_of_lt hint
  have hneg : ¬ Int32.ofNat h.text.length < 0 := by
    rw [Int32.lt_iff_toInt_lt, htoInt]
    exact Int.not_lt.mpr (Int.natCast_nonneg _)
  have hbody : contentLength (h.request rest).headers = statedLength (h.request []).headers := by
    rw [contentLength_eq hok, h.statedLength_request]
  have hpath : (h.request rest).path = h.path := rfl
  by_cases hslash : slash ∈ h.path
  · rw [if_pos hslash, Request.parseHeader, hok]
    simp only
    rw [if_neg hneg, hpath, if_neg (not_not_intro hslash), htoInt, Int.toNat_natCast, hbody]
    by_cases hquery : question ∈ h.path
    · rw [if_pos hquery]
      exact ⟨_, rfl, fun _ => ⟨hb, ⟨rest, rfl, rfl⟩, rfl, rfl, rfl, rfl⟩⟩
    · rw [if_neg hquery]
      have hplain : ∀ c ∈ h.path, (c != question) = true := fun c hc =>
        bne_iff_ne.mpr fun heq => hquery (heq ▸ hc)
      refine ⟨_, rfl, fun _ => ⟨hb, ⟨rest, rfl, rfl⟩, rfl, rfl, ?_, ?_⟩⟩
      · rw [urlPath, List.takeWhile_eq_self_iff.mpr hplain]
      · rw [urlQuery, List.dropWhile_eq_nil_iff.mpr hplain]
        rfl
  · rw [if_neg hslash]
    exact ⟨_, Request.parseHeader_noSlash _ hok hneg hslash, fun hmem => absurd hmem hslash⟩

/-- The read that brings the last byte of the head. -/
theorem dealRead_head {s : Loop} {got : Str} (hs : s.Waiting got) (p : UInt8 × Str)
    (h : HeadText) (hlines : h.lines.length ≤ 32) {rest : Str}
    (hgot : got ++ piece p = h.text ++ rest) (hint : h.text.length < 2 ^ 31) :
    (slash ∈ h.path → ∃ req, dealRead s (.data p.1 p.2) = .processed req ∧
        req.Sees h (h.text ++ rest)) ∧
      (slash ∉ h.path → dealRead s (.data p.1 p.2) = .parseError) := by
  obtain ⟨b, hb, hread⟩ := dealRead_waiting hs p
  obtain ⟨next, hnext, hsees⟩ := Request.parseHeader_head h hlines b rest (hb.trans hgot) hint
  have hpos : 0 ≤ (Int32.ofNat h.text.length).toInt := by
    rw [Int32.toInt_ofNat_of_lt hint]
    exact Int.natCast_nonneg _
  rw [hread _ hnext]
  constructor
  · intro hslash
    have hagain : Int32.ofNat h.text.length ≠ -2 := fun heq =>
      absurd (heq ▸ hpos) (by decide)
    have herror : Int32.ofNat h.text.length ≠ -1 := fun heq =>
      absurd (heq ▸ hpos) (by decide)
    refine ⟨next, ?_, hsees hslash⟩
    simp only [if_pos hslash, if_neg hagain, if_neg herror]
  · intro hslash
    simp only [if_neg hslash, if_true]
    rfl

/-- As long as the parser asks for more, the loop reads on. -/
theorem deal_waiting (ps : List (UInt8 × Str)) : ∀ {s : Loop} {got : Str}, s.Waiting got →
    phrParseRequest 32 (got ++ streamBytes ps) = .error .incomplete →
    ∃ s' : Loop, s'.Waiting (got ++ streamBytes ps) ∧
      ∀ reads, deal s (arrivals ps false ++ reads) = deal s' reads := by
  induction ps with
  | nil =>
    intro s got hs _
    refine ⟨s, ?_, fun reads => rfl⟩
    rw [streamBytes, List.map_nil, List.flatten_nil, List.append_nil]
    exact hs
  | cons p ps ih =>
    intro s got hs hmore
    rw [streamBytes_cons, ← List.append_assoc] at hmore ⊢
    have hnow := (phrParseRequest_settled (streamBytes ps) 32 (got ++ piece p)).waits hmore
    obtain ⟨s₁, hread, hs₁⟩ := dealRead_incomplete hs p hnow
    obtain ⟨s', hs', hdeal⟩ := ih hs₁ hmore
    refine ⟨s', hs', fun reads => ?_⟩
    rw [← hdeal]
    show deal s (.data p.1 p.2 :: (arrivals ps false ++ reads)) = _
    rw [deal, hread]

/-- The loop at the first piece behind which the parser does not ask for more. -/
theorem deal_settling {before : List (UInt8 × Str)} (after : List (UInt8 × Str))
    (p : UInt8 × Str) (hbefore : phrParseRequest 32 (streamBytes before) = .error .incomplete) :
    ∃ s : Loop, s.Waiting (streamBytes before) ∧ ∀ later,
      deal Loop.init (arrivals (before ++ p :: after) false ++ later) =
        deal s (.data p.1 p.2 :: (arrivals after false ++ later)) := by
  obtain ⟨s, hs, hdeal⟩ := deal_waiting before Loop.init_waiting hbefore
  refine ⟨s, hs, fun later => ?_⟩
  rw [← hdeal]
  simp only [arrivals, List.map_append, List.map_cons, List.append_assoc, List.cons_append,
    Bool.false_eq_true, if_false, List.nil_append]

/-- On every proper beginning of a head the parser asks for more. -/
theorem HeadText.prefix_incomplete (h : HeadText) {k : ℕ} (hk : h.lines.length ≤ k) {u v : Str}
    (huv : u ++ v = h.text) (hv : v ≠ []) : phrParseRequest k u = .error .incomplete := by
  have hparse : parseRequest k (u ++ v) = .ok (h.request [], []) := by
    rw [huv, ← List.append_nil h.text]
    exact h.parseRequest_text hk []
  rw [phrParseRequest, prefix_waits (fun s t => parseRequest_settled t k s) hparse hv]
  rfl

/-- A piece that settles a stream. -/
theorem exists_settling (ps : List (UInt8 × Str))
    (h : phrParseRequest 32 (streamBytes ps) ≠ .error .incomplete) :
    ∃ before p after, ps = before ++ p :: after ∧
      phrParseRequest 32 (streamBytes before) = .error .incomplete ∧
      phrParseRequest 32 (streamBytes before ++ piece p) ≠ .error .incomplete ∧
      phrParseRequest 32 (streamBytes ps) =
        (phrParseRequest 32 (streamBytes before ++ piece p)).map
          fun r => (r.1.grow (streamBytes after), r.2) := by
  obtain ⟨before, p, after, hsplit, hbefore, hne, hall⟩ :=
    settles_at (fun s t => phrParseRequest_settled t 32 s) (ps.map piece) [] rfl h
  obtain ⟨before, rest, rfl, rfl, hrest⟩ := List.map_eq_append_iff.mp hsplit
  obtain ⟨p, after, rfl, rfl, rfl⟩ := List.map_eq_cons_iff.mp hrest
  exact ⟨before, p, after, rfl, hbefore, hne, hall⟩

/-- **The loop reads a stream as the parser reads it whole**, however it is cut: it reads on when
the parser asks for more; it throws when the parser refuses the stream; and behind a head it stops
with the piece that brings the head's last byte, and throws when the url has no slash. -/
theorem deal_stream (ps : List (UInt8 × Str)) (hint : (streamBytes ps).length < 2 ^ 31) :
    (phrParseRequest 32 (streamBytes ps) = .error .incomplete →
      ∃ s : Loop, s.Waiting (streamBytes ps) ∧ deal Loop.init (arrivals ps false) = .reading s) ∧
    (phrParseRequest 32 (streamBytes ps) = .error .malformed →
      ∀ later, deal Loop.init (arrivals ps false ++ later) = .parseError) ∧
    ∀ (h : HeadText) (rest : Str), h.lines.length ≤ 32 → streamBytes ps = h.text ++ rest →
      (slash ∉ h.path → ∀ later, deal Loop.init (arrivals ps false ++ later) = .parseError) ∧
      (slash ∈ h.path → ∃ before p after req, ps = before ++ p :: after ∧
        (streamBytes before).length < h.text.length ∧
        h.text.length ≤ (streamBytes before ++ piece p).length ∧
        req.Sees h (streamBytes before ++ piece p) ∧
        ∀ later, deal Loop.init (arrivals ps false ++ later) = .processed req) := by
  refine ⟨fun hmore => ?_, fun hbad => ?_, fun h rest hlines hbytes => ?_⟩
  · obtain ⟨s, hs, hdeal⟩ := deal_waiting ps Loop.init_waiting hmore
    refine ⟨s, hs, ?_⟩
    rw [← List.append_nil (arrivals ps false), hdeal]
    rfl
  · obtain ⟨before, p, after, hps, hbefore, hne, hall⟩ :=
      exists_settling ps (by rw [hbad]; decide)
    obtain ⟨s, hs, hdeal⟩ := deal_settling after p hbefore
    have hnow : phrParseRequest 32 (streamBytes before ++ piece p) = .error .malformed := by
      rw [hbad] at hall
      cases hp : phrParseRequest 32 (streamBytes before ++ piece p) with
      | error e => rw [hp] at hall; cases hall; rfl
      | ok r => rw [hp] at hall; cases hall
    intro later
    rw [hps, hdeal, deal, dealRead_malformed hs p hnow]
  · have hok : phrParseRequest 32 (streamBytes ps) = .ok (h.request rest, h.text.length) :=
      (phrParseRequest_iff 32 _ _ _).mpr ⟨h, rest, hlines, hbytes, rfl, rfl⟩
    obtain ⟨before, p, after, hps, hbefore, hne, -⟩ := exists_settling ps (by rw [hok]; simp)
    have hwhole : streamBytes before ++ piece p ++ streamBytes after = h.text ++ rest := by
      rw [← hbytes, hps, streamBytes_append, streamBytes_cons, List.append_assoc]
    have htext : h.text <+: streamBytes before ++ piece p ++ streamBytes after :=
      ⟨rest, hwhole.symm⟩
    have hlong : h.text.length ≤ (streamBytes before ++ piece p).length := by
      by_contra hshort
      obtain ⟨v, hv⟩ := List.prefix_of_prefix_length_le (List.prefix_append _ _) htext (by omega)
      refine hne (h.prefix_incomplete hlines hv fun hnil => hshort ?_)
      rw [← hv, hnil, List.append_nil]
    obtain ⟨u, hu⟩ := List.prefix_of_prefix_length_le htext (List.prefix_append _ _) hlong
    have hfew : (streamBytes before).length < h.text.length := by
      by_contra hmany
      obtain ⟨v, hv⟩ := List.prefix_of_prefix_length_le htext
        ((List.prefix_append _ _).trans (List.prefix_append _ _)) (Nat.not_lt.mp hmany)
      rw [(phrParseRequest_iff 32 _ _ _).mpr ⟨h, v, hlines, hv.symm, rfl, rfl⟩] at hbefore
      cases hbefore
    have hhead : h.text.length < 2 ^ 31 := by
      rw [hbytes, List.length_append] at hint
      omega
    obtain ⟨s, hs, hdeal⟩ := deal_settling after p hbefore
    obtain ⟨hcomplete, hrefused⟩ := dealRead_head hs p h hlines hu.symm hhead
    refine ⟨fun hslash later => ?_, fun hslash => ?_⟩
    · rw [hps, hdeal, deal, hrefused hslash]
    · obtain ⟨req, hread, hsees⟩ := hcomplete hslash
      refine ⟨before, p, after, req, hps, hfew, hlong, ?_, fun later => ?_⟩
      · rw [← hu]
        exact hsees
      · rw [hps, hdeal, deal, hread]

/-! ### A request in two pieces -/

theorem exampleLine_token :
    ∀ n ∈ some (ascii "Content-Length"), n ≠ [] ∧ ∀ c ∈ n, isTokenChar c = true := by
  intro n hn
  cases hn
  exact ⟨List.cons_ne_nil _ _, List.all_eq_true.mp (by decide +kernel)⟩

/-- The line that states a body of two bytes. -/
def exampleLine : HeaderLine where
  name := some (ascii "Content-Length")
  before := [sp]
  value := ascii "2"
  behind := []
  eol := .full
  token := exampleLine_token
  before_blank := List.all_eq_true.mp rfl
  printable := fun _ hc => (by rw [List.mem_singleton.mp hc]; rfl)
  behind_blank := List.forall_mem_nil _
  trimmed := fun _ hc => (by cases hc; rfl)
  named := fun _ _ hc => (by cases hc; rfl)
  continued := fun h => absurd h (Option.some_ne_none _)

theorem exampleHead_token : ∀ c ∈ ascii "POST", isTokenChar c = true :=
  List.all_eq_true.mp (by decide +kernel)

/-- The head of a request with a query and a body. -/
def exampleHead : HeadText where
  lead := none
  method := ascii "POST"
  gap := 0
  path := ascii "/a?x=1"
  gap' := 0
  minor := 49
  eol := .full
  lines := [exampleLine]
  last := .full
  method_ne := List.cons_ne_nil _ _
  method_token := exampleHead_token
  path_ne := List.cons_ne_nil _ _
  path_plain := List.all_eq_true.mp rfl
  minor_digit := rfl
  first_named := fun _ hl => (by cases hl; exact Option.some_ne_none (ascii "Content-Length"))

/-- Its first piece, which ends inside the header. -/
def exampleFirst : UInt8 × Str := (80, ascii "OST /a?x=1 HTTP/1.1\r\nContent-Len")

/-- Its second piece, with the body. -/
def exampleSecond : UInt8 × Str := (103, ascii "th: 2\r\n\r\nhi")

theorem examplePieces_bytes :
    streamBytes [exampleFirst, exampleSecond] = exampleHead.text ++ ascii "hi" := by
  decide +kernel

theorem exampleHead_slash : slash ∈ exampleHead.path := by decide +kernel

/-- The loop at a request in two pieces. -/
theorem deal_stream_two : ∃ before p after req,
    [exampleFirst, exampleSecond] = before ++ p :: after ∧
      (streamBytes before).length < exampleHead.text.length ∧
      exampleHead.text.length ≤ (streamBytes before ++ piece p).length ∧
      req.Sees exampleHead (streamBytes before ++ piece p) ∧
      ∀ later, deal Loop.init (arrivals [exampleFirst, exampleSecond] false ++ later) =
        .processed req :=
  ((deal_stream [exampleFirst, exampleSecond] (by decide)).2.2 exampleHead (ascii "hi")
    (by decide) examplePieces_bytes).2 exampleHead_slash

/-! ### From the stream to the answer -/

/-- The loop that sends what `res_buff()` offers: each `async_send` takes as many bytes as the list
says, or as there are, and one that takes none ends the loop.  After the list no send returns, as
when one throws. -/
def sendLoop : List ℕ → Str → List Str
  | [], _ => []
  | k :: ks, bytes =>
    let sent := min k bytes.length
    if sent = 0 then []
    else bytes.take sent :: if bytes.length - sent = 0 then [] else sendLoop ks (bytes.drop sent)

/-- `server::deal`: the pieces it sends, none after an exception, and `none` while it still reads
or when the request it processes has a length without a value. -/
def serve (router : HttpRouter) (reads : List Recv) (sends : List ℕ) : Option (List Str) :=
  match deal Loop.init reads with
  | .reading _ => none
  | .parseError => some []
  | .processed req =>
    req.parsed?.map fun r =>
      match process router ⟨r, Response.init⟩ with
      | (.ok _, after) => sendLoop sends after.res.resBuff
      | (.error _, _) => []

/-- The text a request is answered with: what the selected function leaves to be offered when it
returns, and the 404 text when it throws or there is none. -/
def HttpRouter.answer (router : HttpRouter) (r : ParsedRequest) : Str :=
  match router.selected r with
  | none => notFoundResponse
  | some handler =>
    match handler ⟨r.typed, Response.init⟩ with
    | (.ok _, after) => after.res.resBuff
    | (.error _, _) => notFoundResponse

/-- The request is the one with this head and this body. -/
structure ParsedRequest.AsSent (r : ParsedRequest) (h : HeadText) (body : Str) : Prop where
  buffered : r.buff.data = h.text ++ body
  head : r.head = h.request body
  headerLen : r.headerLen = h.text.length
  bodyLen : r.bodyLen = body.length
  path : r.path = urlPath h.path
  queryMap : r.queryMap = parseQuery (urlQuery h.path)
  contentType : r.contentType = .unknown

/-- **What is sent** is the answer up to where the first send stops that takes nothing. -/
theorem sendLoop_flatten (ks : List ℕ) : ∀ bytes : Str,
    (sendLoop ks bytes).flatten = bytes.take (ks.takeWhile fun k => 0 < k).sum := by
  induction ks with
  | nil => exact fun bytes => (List.take_zero).symm
  | cons k ks ih =>
    intro bytes
    rw [sendLoop]
    cases k with
    | zero =>
      rw [Nat.zero_min]
      exact List.take_zero.symm
    | succ k =>
      have hpositive : ((k + 1) :: ks).takeWhile (fun k => 0 < k) =
          (k + 1) :: ks.takeWhile fun k => 0 < k :=
        List.takeWhile_cons_of_pos (decide_eq_true (Nat.succ_pos k))
      rw [hpositive, List.sum_cons]
      cases bytes with
      | nil => rw [List.length_nil, Nat.min_zero, if_pos rfl, List.take_nil]; rfl
      | cons c bytes =>
        generalize hall : c :: bytes = all
        have hpos : 0 < all.length := by rw [← hall]; exact Nat.succ_pos _
        rw [if_neg (by omega)]
        by_cases hend : all.length ≤ k + 1
        · rw [if_pos (by omega), Nat.min_eq_right hend, List.take_length,
            List.take_of_length_le (by omega), List.flatten_cons, List.flatten_nil, List.append_nil]
        · rw [if_neg (by omega), Nat.min_eq_left (by omega), List.flatten_cons, ih, ← List.take_add]

/-- The request that `process()` gets. -/
theorem Request.Sees.parsed? {req : Request} {h : HeadText} {body : Str}
    (hsees : req.Sees h (h.text ++ body))
    (hbody : body.length = statedLength (h.request []).headers) :
    ∃ r : ParsedRequest, req.parsed? = some r ∧ r.AsSent h body := by
  obtain ⟨rest, hrest, hparsed⟩ := hsees.parsed
  obtain rfl := List.append_cancel_left hrest
  rw [Request.parsed?, hparsed, hsees.headerLen, hsees.bodyLen]
  simp only
  have hne : (h.request body).method ≠ [] := h.method_ne
  rw [dif_pos hne]
  exact ⟨_, rfl, hsees.buffered, rfl, rfl, hbody.symm, hsees.path, hsees.queryMap, rfl⟩

/-- The bytes offered after `process()`. -/
theorem process_answer (router : HttpRouter) {r : ParsedRequest} (h : r.Supported) :
    ∃ after, process router ⟨r, Response.init⟩ = (.ok (), after) ∧
      after.res.resBuff = router.answer r := by
  rw [process_supported router r h, HttpRouter.answer]
  cases hselect : router.selected r with
  | none =>
    have hcheck := httpHandleCheck_none ⟨r.typed, Response.init⟩
      ((selected_typed router r).trans hselect)
    exact ⟨_, routeSession_false _ hcheck, Response.resBuff_sendNotFound _⟩
  | some handler =>
    have hselect' : router.selected r.typed = some handler :=
      (selected_typed router r).trans hselect
    rcases hrun : handler ⟨r.typed, Response.init⟩ with ⟨outcome, after⟩
    cases outcome with
    | error e =>
      obtain ⟨y, hcheck⟩ := httpHandleCheck_thrown ⟨r.typed, Response.init⟩ hselect' hrun
      simp only [hrun]
      exact ⟨_, routeSession_false _ hcheck, Response.resBuff_sendNotFound _⟩
    | ok u =>
      simp only [hrun]
      exact ⟨after, routeSession_true _ (httpHandleCheck_returned _ hselect' hrun), rfl⟩

/-- The piece that brings the last byte of the head is the last one. -/
theorem deal_request (before : List (UInt8 × Str)) (last : UInt8 × Str) (h : HeadText)
    (body : Str) (hlines : h.lines.length ≤ 32) (hslash : slash ∈ h.path)
    (hbytes : streamBytes (before ++ [last]) = h.text ++ body)
    (hint : (streamBytes (before ++ [last])).length < 2 ^ 31)
    (hbefore : (streamBytes before).length < h.text.length) :
    ∃ req : Request, req.Sees h (h.text ++ body) ∧ ∀ later,
      deal Loop.init (arrivals (before ++ [last]) false ++ later) = .processed req := by
  rw [streamBytes_append] at hbytes
  have htext : h.text <+: streamBytes before ++ streamBytes [last] := ⟨body, hbytes.symm⟩
  obtain ⟨v, hv⟩ :=
    List.prefix_of_prefix_length_le (List.prefix_append _ _) htext (Nat.le_of_lt hbefore)
  have hmore := h.prefix_incomplete hlines hv fun hnil => by
    rw [← hv, hnil, List.append_nil] at hbefore
    exact Nat.lt_irrefl _ hbefore
  obtain ⟨s, hs, hdeal⟩ := deal_settling [] last hmore
  have hpiece : streamBytes before ++ piece last = h.text ++ body := by
    rw [← hbytes, streamBytes_cons]
    exact congrArg _ (List.append_nil _).symm
  have hhead : h.text.length < 2 ^ 31 := by
    rw [streamBytes_append, hbytes, List.length_append] at hint
    omega
  obtain ⟨req, hread, hsees⟩ := (dealRead_head hs last h hlines hpiece hhead).1 hslash
  refine ⟨req, hsees, fun later => ?_⟩
  rw [hdeal, deal, hread]

/-- **A request is answered.**  However a request is cut into pieces, if the piece that brings the
last byte of its head brings its body too, `process()` gets the request as it was sent; and when
its content type is known, the client gets the answer to this request, up to where the first send
stops that takes nothing.  Otherwise nothing is sent. -/
theorem request_served (before : List (UInt8 × Str)) (last : UInt8 × Str) (h : HeadText)
    (body : Str) (hlines : h.lines.length ≤ 32) (hslash : slash ∈ h.path)
    (hbytes : streamBytes (before ++ [last]) = h.text ++ body)
    (hint : (streamBytes (before ++ [last])).length < 2 ^ 31)
    (hbefore : (streamBytes before).length < h.text.length)
    (hbody : body.length = statedLength (h.request []).headers) :
    ∃ r : ParsedRequest, r.AsSent h body ∧
      ∀ (router : HttpRouter) (later : List Recv) (sends : List ℕ),
        (r.Supported → ∃ sent,
          serve router (arrivals (before ++ [last]) false ++ later) sends = some sent ∧
            sent.flatten = (router.answer r).take (sends.takeWhile fun k => 0 < k).sum) ∧
        (¬ r.Supported →
          serve router (arrivals (before ++ [last]) false ++ later) sends = some []) := by
  obtain ⟨req, hsees, hdeal⟩ := deal_request before last h body hlines hslash hbytes hint hbefore
  obtain ⟨r, hr, hsent⟩ := hsees.parsed? hbody
  refine ⟨r, hsent, fun router later sends => ?_⟩
  rw [serve, hdeal]
  simp only [hr, Option.map_some]
  constructor
  · intro hsupported
    obtain ⟨after, hprocess, hanswer⟩ := process_answer router hsupported
    rw [hprocess, ← hanswer]
    exact ⟨_, rfl, sendLoop_flatten sends _⟩
  · intro hunsupported
    obtain ⟨y, hy⟩ := process_unsupported router r hunsupported
    rw [hy]

/-- The request in two pieces is answered. -/
theorem request_served_two : ∃ r : ParsedRequest, r.AsSent exampleHead (ascii "hi") ∧
    ∀ (router : HttpRouter) (later : List Recv) (sends : List ℕ),
      (r.Supported → ∃ sent,
        serve router (arrivals ([exampleFirst] ++ [exampleSecond]) false ++ later) sends =
            some sent ∧
          sent.flatten = (router.answer r).take (sends.takeWhile fun k => 0 < k).sum) ∧
      (¬ r.Supported →
        serve router (arrivals ([exampleFirst] ++ [exampleSecond]) false ++ later) sends =
          some []) :=
  request_served [exampleFirst] exampleSecond exampleHead (ascii "hi") (by decide)
    exampleHead_slash examplePieces_bytes (by decide) (by decide +kernel) (by decide +kernel)

end Rojcpp.Http
