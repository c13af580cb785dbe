import Rojcpp.Http.Request

/-!
# The receive loop of `server::deal`

One session reads into its buffer until `parse_header` says that the head is complete, and then
calls `process()`.  The environment is the list of what the reads bring: some bytes, the end of
the stream, or an exception.  The exception is caught, and `nread` then still holds what the read
before it stored.

`process()` hands the request as it is to the route's handler, so a run that gets there is
described by that request.  The theorem says for which streams the handler can only see received
bytes.
-/

namespace Rojcpp.Http

/-- What one `async_read` does: it brings at least one byte, or it reports the end of the stream,
or it throws; `memory` is what stands in memory behind the used bytes then. -/
inductive Recv where
  | data (first : UInt8) (more : Str)
  | eof
  | failed (memory : ℕ → UInt8)

/-- The bytes a list of reads delivers. -/
def received : List Recv → Str
  | [] => []
  | .data first more :: rs => (first :: more) ++ received rs
  | _ :: rs => received rs

/-- The loop's variables: the session's request and `nread`. -/
structure Loop where
  req : Request
  nread : ℕ

/-- The loop before its first read. -/
def Loop.init : Loop := ⟨Request.init, 0⟩

/-- Where the coroutine is: in the loop, at `process()` with its request, or left through the
`parse_Error` it throws. -/
inductive Dealt where
  | reading (s : Loop)
  | processed (req : Request)
  | parseError

/-- One turn of the loop. -/
def dealRead (s : Loop) (r : Recv) : Dealt :=
  let buff := s.req.buff.reqBuff
  let (nread, written) := match r with
    | .data first more => (more.length + 1, first :: more)
    | .eof => (0, [])
    | .failed memory => (s.nread, (List.range s.nread).map memory)
  if nread = 0 then .processed { s.req with buff }
  else
    let (parse_ret, req) := { s.req with buff := buff.updateUsedSized written }.parseHeader
    if parse_ret = -2 then .reading ⟨req, nread⟩
    else if parse_ret = -1 then .parseError
    else .processed req

/-- The loop over what the reads bring. -/
def deal (s : Loop) : List Recv → Dealt
  | [] => .reading s
  | r :: rs =>
    match dealRead s r with
    | .reading s' => deal s' rs
    | .processed req => .processed req
    | .parseError => .parseError

/-- What the handler may rely on: the buffer holds exactly the received bytes, they start with a
complete head whose length is `header_len()`, `body_len()` is the `Content-Length` it states, head
and body are received, and `body()` is the part behind the head. -/
structure InsideReceived (got : Str) (req : Request) : Prop where
  buffered : req.buff.data = got
  inside : ∃ parsed n, phrParseRequest 32 got = .ok (parsed, n) ∧
    req.headerLen = some n ∧ req.bodyLen = some (statedLength parsed.headers) ∧
    n + statedLength parsed.headers ≤ got.length ∧
    req.body = some ((got.drop n).take (statedLength parsed.headers))

/-- Whenever the loop, started in `s` with `got` received before, calls `process()`, the handler
sees received bytes only. -/
def ProcessSafe (got : Str) (s : Loop) (reads : List Recv) : Prop :=
  ∀ taken last rest s' req, reads = taken ++ last :: rest → deal s taken = .reading s' →
    dealRead s' last = .processed req → InsideReceived (got ++ received (taken ++ [last])) req

/-- The reads of a client that sends these pieces and then closes its connection or leaves it
open. -/
def arrivals (pieces : List (UInt8 × Str)) (closed : Bool) : List Recv :=
  pieces.map (fun p => .data p.1 p.2) ++ if closed then [.eof] else []

/-- The head is complete before the stream ends, and the read that completes it has brought the
whole body as well.  A head the parser refuses ends the connection, and so does a url without a
slash; the length of the head counts as the `int` the parser returns. -/
def BodyWithHead (got : Str) (closed : Bool) : List (UInt8 × Str) → Prop
  | [] => closed = false
  | p :: ps =>
    let got := got ++ p.1 :: p.2
    match phrParseRequest 32 got with
    | .error .incomplete => BodyWithHead got closed ps
    | .error .malformed => True
    | .ok (parsed, n) =>
      if Int32.ofNat n = -2 then BodyWithHead got closed ps
      else if Int32.ofNat n = -1 then True
      else if Int32.ofNat n < 0 then False
      else slash ∈ parsed.path → n < 2 ^ 31 ∧ n + statedLength parsed.headers ≤ got.length

/-! ### One turn of the loop -/

theorem received_append (as bs : List Recv) :
    received (as ++ bs) = received as ++ received bs := by
  induction as with
  | nil => rfl
  | cons a as ih => cases a <;> simp only [List.cons_append, received, ih, List.append_assoc]

/-- A read that brings bytes: the head is parsed again over all of them. -/
theorem dealRead_data (s : Loop) (first : UInt8) (more : Str) (next : Int32 × Request)
    (hnext : next = Request.parseHeader { s.req with
      buff := s.req.buff.reqBuff.updateUsedSized (first :: more) }) :
    dealRead s (.data first more) =
      if next.1 = -2 then .reading ⟨next.2, more.length + 1⟩
      else if next.1 = -1 then .parseError
      else .processed next.2 := by
  rw [dealRead, hnext]
  simp only [Nat.add_one_ne_zero, if_false]

/-- The end of the stream ends the loop, whatever has been parsed. -/
theorem dealRead_eof (s : Loop) :
    dealRead s .eof = .processed { s.req with buff := s.req.buff.reqBuff } := by
  rw [dealRead]
  simp only [if_true]

/-- **What a turn has to guarantee, and what it leaves to the turns after it.** -/
theorem processSafe_cons (got : Str) (s : Loop) (r : Recv) (rs : List Recv) :
    ProcessSafe got s (r :: rs) ↔
      (∀ req, dealRead s r = .processed req → InsideReceived (got ++ received [r]) req) ∧
      (∀ s', dealRead s r = .reading s' → ProcessSafe (got ++ received [r]) s' rs) := by
  constructor
  · intro h
    refine ⟨fun req hreq => h [] r rs s req rfl rfl hreq, ?_⟩
    intro s' hs' taken last rest s'' req hrs hdeal hreq
    have hrun : deal s (r :: taken) = .reading s'' := by rw [deal, hs']; exact hdeal
    have hsafe := h (r :: taken) last rest s'' req (by rw [hrs]; rfl) hrun hreq
    rw [List.append_assoc, ← received_append]
    exact hsafe
  · intro h taken last rest s'' req hrs hdeal hreq
    obtain ⟨hnow, hlater⟩ := h
    cases taken with
    | nil =>
      obtain ⟨rfl, rfl⟩ := List.cons.inj hrs
      obtain rfl : s = s'' := Dealt.reading.inj hdeal
      exact hnow req hreq
    | cons t taken =>
      obtain ⟨rfl, htail⟩ := List.cons.inj hrs
      rw [deal] at hdeal
      cases hstep : dealRead s r with
      | reading s' =>
        rw [hstep] at hdeal
        have hsafe := hlater s' hstep taken last rest s'' req htail hdeal hreq
        rw [List.append_assoc, ← received_append] at hsafe
        exact hsafe
      | processed req' => rw [hstep] at hdeal; cases hdeal
      | parseError => rw [hstep] at hdeal; cases hdeal

/-- A request whose lengths were never stored does not meet what the handler relies on. -/
theorem not_inside_of_none (got : Str) (req : Request) (h : req.headerLen = none) :
    ¬ InsideReceived got req := by
  intro hsafe
  obtain ⟨parsed, n, -, hlen, -⟩ := hsafe.inside
  rw [h] at hlen
  cases hlen

/-- A turn that brings bytes, by the value `parse_header` returns. -/
theorem processSafe_data (got : Str) (s : Loop) (first : UInt8) (more : Str) (rs : List Recv)
    (next : Int32 × Request)
    (hnext : next = Request.parseHeader { s.req with
      buff := s.req.buff.reqBuff.updateUsedSized (first :: more) }) :
    ProcessSafe got s (.data first more :: rs) ↔
      if next.1 = -2 then ProcessSafe (got ++ first :: more) ⟨next.2, more.length + 1⟩ rs
      else if next.1 = -1 then True
      else InsideReceived (got ++ first :: more) next.2 := by
  rw [processSafe_cons, dealRead_data s first more next hnext, received, received,
    List.append_nil]
  by_cases hagain : next.1 = -2
  · rw [if_pos hagain, if_pos hagain]
    refine ⟨fun h => h.2 _ rfl, fun h => ⟨fun req hreq => (by cases hreq), ?_⟩⟩
    intro s' hs'
    obtain rfl := Dealt.reading.inj hs'
    exact h
  · rw [if_neg hagain, if_neg hagain]
    by_cases herror : next.1 = -1
    · rw [if_pos herror, if_pos herror]
      exact ⟨fun _ => trivial, fun _ => ⟨fun req h => (by cases h), fun s' h => (by cases h)⟩⟩
    · rw [if_neg herror, if_neg herror]
      refine ⟨fun h => h.1 _ rfl, fun h => ⟨?_, fun s' hs' => (by cases hs')⟩⟩
      intro req hreq
      obtain rfl := Dealt.processed.inj hreq
      exact h

/-- After a parse that succeeded, the handler sees received bytes only exactly when the head is
short enough for an `int` and the body has arrived. -/
theorem inside_iff (got : Str) (req : Request) {parsed : PhrRequest} {n : ℕ}
    (hparse : phrParseRequest 32 got = .ok (parsed, n)) (hdata : req.buff.data = got)
    (hhead : req.headerLen = some (Int32.ofNat n).toInt.toNat)
    (hbody : req.bodyLen = some (statedLength parsed.headers)) :
    InsideReceived got req ↔ n < 2 ^ 31 ∧ n + statedLength parsed.headers ≤ got.length := by
  constructor
  · intro h
    obtain ⟨parsed', n', hparse', hhead', -, hle, -⟩ := h.inside
    rw [hparse] at hparse'
    cases hparse'
    rw [hhead] at hhead'
    have hn : (Int32.ofNat n).toInt.toNat = n := Option.some.inj hhead'
    have hlt := (Int32.ofNat n).toInt_lt
    exact ⟨by omega, hle⟩
  · intro ⟨hn, hle⟩
    have hint : (Int32.ofNat n).toInt = n := Int32.toInt_ofNat_of_lt hn
    have hlen : req.headerLen = some n := by rw [hhead, hint, Int.toNat_natCast]
    refine ⟨hdata, parsed, n, hparse, hlen, hbody, hle, ?_⟩
    rw [Request.body, hlen, hbody]
    simp only
    rw [Buffer.usedSize, hdata, if_pos hle]

/-! ### The run of the loop -/

/-- The end of the stream while no length is stored yet. -/
theorem not_processSafe_eof (got : Str) (s : Loop) (h : s.req.headerLen = none) :
    ¬ ProcessSafe got s [.eof] := by
  intro hsafe
  have hnow := ((processSafe_cons got s .eof []).mp hsafe).1 _ (dealRead_eof s)
  apply not_inside_of_none _ _ _ hnow
  exact h

/-- The loop that waits for its next read has promised nothing yet. -/
theorem processSafe_nil (got : Str) (s : Loop) : ProcessSafe got s [] := by
  intro taken last rest s' req hnil
  cases taken <;> cases hnil

/-- **The condition carries through the loop**, from any state that has `got` in its buffer and
has stored no length yet. -/
theorem processSafe_from (closed : Bool) (ps : List (UInt8 × Str)) : ∀ (got : Str) (s : Loop),
    s.req.buff.data = got → s.req.headerLen = none →
    (ProcessSafe got s (arrivals ps closed) ↔ BodyWithHead got closed ps) := by
  induction ps with
  | nil =>
    intro got s _ hlen
    cases closed with
    | true => exact ⟨fun h => absurd h (not_processSafe_eof got s hlen), fun h => nomatch h⟩
    | false => exact ⟨fun _ => rfl, fun _ => processSafe_nil got s⟩
  | cons p ps ih =>
    intro got s hgot hlen
    have harr : arrivals (p :: ps) closed = .data p.1 p.2 :: arrivals ps closed := rfl
    generalize hreq : ({ s.req with
      buff := s.req.buff.reqBuff.updateUsedSized (p.1 :: p.2) } : Request) = req
    have hdata : req.buff.data = got ++ p.1 :: p.2 := by
      rw [← hreq, Buffer.updateUsedSized_data, Buffer.reqBuff_data, hgot]
    have hnone : req.headerLen = none := by rw [← hreq]; exact hlen
    rw [harr, processSafe_data got s p.1 p.2 _ _ rfl, hreq, BodyWithHead]
    generalize got ++ p.1 :: p.2 = bytes at hdata ⊢
    cases hparse : phrParseRequest 32 bytes with
    | error e =>
      rw [req.parseHeader_error e (by rw [hdata, hparse])]
      cases e with
      | incomplete => exact ih bytes _ hdata hnone
      | malformed => exact Iff.rfl
    | ok r =>
      obtain ⟨parsed, n⟩ := r
      have hok : phrParseRequest 32 req.buff.data = .ok (parsed, n) := by rw [hdata, hparse]
      simp only
      by_cases hneg : Int32.ofNat n < 0
      · rw [req.parseHeader_negative hok hneg, if_pos hneg]
        simp only
        by_cases hagain : Int32.ofNat n = -2
        · rw [if_pos hagain, if_pos hagain]
          exact ih bytes _ hdata hnone
        · rw [if_neg hagain, if_neg hagain]
          by_cases herror : Int32.ofNat n = -1
          · rw [if_pos herror, if_pos herror]
          · rw [if_neg herror, if_neg herror]
            exact iff_of_false (not_inside_of_none _ _ hnone) not_false
      · have hagain : Int32.ofNat n ≠ -2 := by rintro h; rw [h] at hneg; exact hneg (by decide)
        have herror : Int32.ofNat n ≠ -1 := by rintro h; rw [h] at hneg; exact hneg (by decide)
        rw [if_neg hagain, if_neg herror, if_neg hneg]
        by_cases hslash : slash ∈ parsed.path
        · obtain ⟨next, hnext, hbuff, hhead, hbody⟩ := req.parseHeader_complete hok hneg hslash
          rw [contentLength_eq hok] at hbody
          have hinside := inside_iff bytes next hparse (by rw [hbuff, hdata]) hhead hbody
          rw [hnext]
          simp only
          rw [if_neg hagain, if_neg herror, hinside]
          exact ⟨fun h _ => h, fun h => h hslash⟩
        · rw [req.parseHeader_noSlash hok hneg hslash]
          exact iff_of_true trivial fun h => absurd h hslash

/-- **The handler sees received bytes only, exactly for these streams.**  For every stream and
every way it is cut into reads, `process()` is called on a request whose head and body lie in the
received bytes if and only if the head is complete before the end of the stream and the read that
completes it has brought the body. -/
theorem process_safe_iff (pieces : List (UInt8 × Str)) (closed : Bool) :
    ProcessSafe [] Loop.init (arrivals pieces closed) ↔ BodyWithHead [] closed pieces := by
  apply processSafe_from
  · rfl
  · rfl

/-- The head of a request that announces a body of five bytes. -/
def announced : Str := ascii "POST / HTTP/1.1\r\nContent-Length: 5\r\n\r\n"

/-- What the parser makes of that head. -/
def announcedRequest : PhrRequest :=
  ⟨ascii "POST", ascii "/", 1,
    [⟨some (ascii "Content-Length"), ascii "5", ascii "5\r\n\r\n"⟩]⟩

theorem announced_parse : phrParseRequest 32 announced = .ok (announcedRequest, 38) := by
  decide +kernel

/-- **A head that arrives before its body, and a client that closes without sending a head**, both
get to `process()`: in the first case five bytes behind the received ones are the body, in the
second the lengths have no value. -/
theorem process_unsafe :
    ¬ ProcessSafe [] Loop.init (arrivals [(80, announced.tail)] false) ∧
    ¬ ProcessSafe [] Loop.init (arrivals [] true) := by
  constructor
  · rw [processSafe_from false _ [] Loop.init rfl rfl, BodyWithHead]
    have hbytes : [] ++ (80 : UInt8) :: announced.tail = announced := by decide +kernel
    have hstated : statedLength announcedRequest.headers = 5 := by decide +kernel
    have hlength : announced.length = 38 := by decide +kernel
    have hslash : slash ∈ announcedRequest.path := by decide +kernel
    simp only [hbytes, announced_parse]
    rw [if_neg (by decide), if_neg (by decide), if_neg (by decide), hstated, hlength]
    intro h
    have hlt := (h hslash).2
    omega
  · exact not_processSafe_eof [] Loop.init rfl

end Rojcpp.Http
