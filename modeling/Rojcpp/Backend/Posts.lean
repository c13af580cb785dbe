import Rojcpp.Backend.Submission
import Rojcpp.Http.Serve
import Rojcpp.Http.StatusContent

/-!
# Posted submissions, from the socket to the judge

The two ends of `handleJudgeMsg`: it is called for an HTTP request, which comes to the session in
pieces, and it answers that request after the message for the judge is sent.  A `Post` is one such
request with what the machine, the database and the client's socket do to it.  Every post that is
sent as it should be is answered by the route's text, and the messages of any list of posts come to
the judge's queue in order.
-/

namespace Rojcpp.Backend

open Rojcpp.Lib Rojcpp.Http Rojcpp.Json
open Rojcpp.Judge (MessageSendJudge tcpWriteAll payloads serverReceiver)

/-- `body()` of a request whose body is received. -/
def requestBody (r : ParsedRequest) : Str := (r.buff.data.drop r.headerLen).take r.bodyLen

/-- The text `handleJudgeMsg` answers with. -/
def okText : Str := ascii "\x7bmsg:\"ok\",code:1\x7d"

/-- `handleJudgeMsg` as a function on the request and the response.  What it throws, it throws
before it has changed either. -/
def handleJudgeCall (o : MapOrder) (junk m₀ t₀ : Int32) (b : Sql.Backend) : Call Unit := fun x =>
  match handleJudgeMsg o junk m₀ t₀ b (requestBody x.req) with
  | .ok _ => (.ok (), ⟨x.req, x.res.setStatusAndLiteral .ok .json okText⟩)
  | .error _ => (.error .other, x)

/-- What `regist_route` registers, for the request of one submission. -/
def judgeRoute (s : Submission) : Registration :=
  ⟨[.POST], ascii "/handleJudge",
    handleJudgeCall s.order s.junk s.oldMemoryLimit s.oldTimeLimit s.backend, []⟩

/-- The content types `handle_read` throws at. -/
def refusedTypes : List Str :=
  [ascii "application/x-www-form-url_encoded", ascii "multipart/form-data",
    ascii "application/octet-stream"]

/-- A posted submission: the head of its request, the pieces the request comes in, the routes, and
how many bytes each send takes. -/
structure Post where
  submission : Submission
  head : HeadText
  before : List (UInt8 × Str)
  last : UInt8 × Str
  routes : List Registration
  sends : List ℕ

/-- The reads of a post, with anything behind them. -/
def Post.reads (p : Post) (later : List Recv) : List Recv :=
  arrivals (p.before ++ [p.last]) false ++ later

/-- The answer's bytes. -/
def okBytes : Str := (Response.init.setStatusAndLiteral .ok .json okText).buff.data

/-- The post is sent as it should be: a submission the program can take, posted to its route, under
a head that states the length of the body and no content type the session refuses; the last piece
brings the end of the head and all of the body; and the client takes the whole answer. -/
structure Post.Sent (p : Post) : Prop where
  taken : p.submission.Taken
  route : latest p.routes (ascii "/handleJudge") = some (judgeRoute p.submission)
  method : p.head.method = ascii "POST"
  path : urlPath p.head.path = ascii "/handleJudge"
  lines : p.head.lines.length ≤ 32
  type : ∀ t ∈ refusedTypes,
    svFind (getHeaderValue (p.head.request []).headers (ascii "content-type")).1 t = false
  stated : p.submission.body.text.length = statedLength (p.head.request []).headers
  bytes : streamBytes (p.before ++ [p.last]) = p.head.text ++ p.submission.body.text
  size : (streamBytes (p.before ++ [p.last])).length < 2 ^ 31
  headEnd : (streamBytes p.before).length < p.head.text.length
  room : okBytes.length ≤ (p.sends.takeWhile fun k => 0 < k).sum

section
variable {r : ParsedRequest} {h : HeadText} {body : Str}

theorem requestBody_sent (hr : r.AsSent h body) : requestBody r = body := by
  rw [requestBody, hr.buffered, hr.headerLen, hr.bodyLen, List.drop_left, List.take_length]

theorem requestBody_typed (r : ParsedRequest) : requestBody r.typed = requestBody r := by
  rw [ParsedRequest.typed]
  split <;> rfl

/-- A head with none of the refused content types is served. -/
theorem supported_of_type (hr : r.AsSent h body)
    (htype : ∀ t ∈ refusedTypes,
      svFind (getHeaderValue (h.request []).headers (ascii "content-type")).1 t = false) :
    r.Supported := by
  have hvalue : (getHeaderValue r.head.headers (ascii "content-type")).1 =
      (getHeaderValue (h.request []).headers (ascii "content-type")).1 := by
    rw [hr.head]
    exact getHeaderValue_fields _
      ((lineHeaders_fields _ _ _).trans (lineHeaders_fields _ _ _).symm)
  simp only [refusedTypes, List.mem_cons, List.not_mem_nil, or_false, forall_eq_or_imp,
    forall_eq] at htype
  obtain ⟨hform, hmulti, hoctet⟩ := htype
  intro _
  rw [ParsedRequest.getContentType, hvalue]
  simp only [hr.contentType, ne_eq, not_true_eq_false, if_false, hform, hmulti, hoctet,
    Bool.false_eq_true]
  by_cases hnone : (getHeaderValue (h.request []).headers (ascii "content-type")).1 = []
  · rw [if_pos hnone]
    exact .inr (.inr rfl)
  · rw [if_neg hnone]
    split
    · exact .inr (.inl rfl)
    · exact .inr (.inr rfl)

end

/-! ### One post -/

section
variable {p : Post} (hp : p.Sent)
include hp

theorem Post.Sent.slash_mem : slash ∈ p.head.path := by
  have hslash : slash ∈ urlPath p.head.path := by
    rw [hp.path]
    exact List.mem_cons_self
  exact (List.takeWhile_prefix _).subset hslash

/-- The route's function on the request as it was sent. -/
theorem Post.Sent.called {r : ParsedRequest} (hr : r.AsSent p.head p.submission.body.text) :
    handleJudgeMsg p.submission.order p.submission.junk p.submission.oldMemoryLimit
        p.submission.oldTimeLimit p.submission.backend (requestBody r) =
      .ok p.submission.message := by
  rw [requestBody_sent hr]
  exact hp.taken.handled

/-- The function that is selected for the request. -/
theorem Post.Sent.selected {r : ParsedRequest} (hr : r.AsSent p.head p.submission.body.text) :
    (registerAll p.routes).selected r = some (judgeRoute p.submission).invoker := by
  have hpath : latest p.routes r.path = some (judgeRoute p.submission) := by
    rw [hr.path, hp.path]
    exact hp.route
  have hmethod : r.head.method ∈ (judgeRoute p.submission).names := by
    rw [hr.head]
    show p.head.method ∈ [ascii "POST"]
    rw [hp.method]
    exact List.mem_singleton_self _
  obtain ⟨i, hi, hslot⟩ := (slot_iff _ r).mpr (sharesInitial_of_mem hmethod)
  rw [HttpRouter.selected, registerAll_apply, hpath, Option.map_some, Option.bind_some, hi,
    Option.bind_some, if_pos hslot]

/-- The answer to the request. -/
theorem Post.Sent.answer {r : ParsedRequest} (hr : r.AsSent p.head p.submission.body.text) :
    (registerAll p.routes).answer r = okBytes := by
  have hcall : (judgeRoute p.submission).f ⟨r.typed, Response.init⟩ =
      (.ok (), ⟨r.typed, Response.init.setStatusAndLiteral .ok .json okText⟩) := by
    show handleJudgeCall _ _ _ _ _ _ = _
    rw [handleJudgeCall, requestBody_typed, hp.called hr]
  have hrun : (judgeRoute p.submission).invoker ⟨r.typed, Response.init⟩ =
      (.ok (), ⟨r.typed, Response.init.setStatusAndLiteral .ok .json okText⟩) := by
    have hbefore : doAp ((judgeRoute p.submission).ap.map AccessPoint.before)
        ⟨r.typed, Response.init⟩ = (.ok true, ⟨r.typed, Response.init⟩) := rfl
    rw [Registration.invoker, invoke, Call.bind_ok hbefore, if_pos rfl, Call.bind_ok hcall]
    rfl
  rw [HttpRouter.answer, hp.selected hr]
  simp only [hrun]
  exact (Response.resBuff_eq_data _).mpr (.inl rfl)

/-- The client gets the whole answer, and the message is made. -/
theorem Post.Sent.served (later : List Recv) : ∃ req r,
    deal Loop.init (p.reads later) = .processed req ∧ req.parsed? = some r ∧
    handleJudgeMsg p.submission.order p.submission.junk p.submission.oldMemoryLimit
        p.submission.oldTimeLimit p.submission.backend (requestBody r) =
      .ok p.submission.message ∧
    ∃ sent, serve (registerAll p.routes) (p.reads later) p.sends = some sent ∧
      sent.flatten = okBytes := by
  obtain ⟨req, hsees, hdeal⟩ := deal_request p.before p.last p.head p.submission.body.text hp.lines
    hp.slash_mem hp.bytes hp.size hp.headEnd
  obtain ⟨r, hr, hsent⟩ := hsees.parsed? hp.stated
  refine ⟨req, r, hdeal later, hr, hp.called hsent, ?_⟩
  obtain ⟨after, hprocess, hanswer⟩ :=
    process_answer (registerAll p.routes) (supported_of_type hsent hp.type)
  rw [serve, Post.reads, hdeal]
  simp only [hr, Option.map_some, hprocess]
  refine ⟨_, rfl, ?_⟩
  rw [hanswer, hp.answer hsent, sendLoop_flatten, List.take_of_length_le hp.room]

end

theorem submissions_taken {posts : List Post} (h : ∀ p ∈ posts, p.Sent) :
    ∀ s ∈ posts.map Post.submission, s.Taken := by
  intro s hs
  obtain ⟨p, hp, rfl⟩ := List.mem_map.mp hs
  exact (h p hp).taken

/-- The text has no zero byte. -/
theorem okText_literal : (0 : UInt8) ∉ okText := by decide

/-- **Posted submissions are answered and reach the judge.**  Every post that is sent as it should
be is answered by a 200 response that announces the route's text, however its bytes and those of
the answer are cut, and whatever comes behind it.  The messages of the posts, written to the judge
one after the other, are passed on by its receive loop as they were meant and in order. -/
theorem posts_reach_judge (posts : List Post) (h : ∀ p ∈ posts, p.Sent)
    (writes : ℕ → ℕ) (hwrites : ∀ k, 0 < writes k) :
    (∀ p ∈ posts, ∀ later, ∃ req r sent, deal Loop.init (p.reads later) = .processed req ∧
      req.parsed? = some r ∧
      handleJudgeMsg p.submission.order p.submission.junk p.submission.oldMemoryLimit
          p.submission.oldTimeLimit p.submission.backend (requestBody r) =
        .ok p.submission.message ∧
      serve (registerAll p.routes) (p.reads later) p.sends = some sent ∧
      Announces .ok okText sent.flatten) ∧
    ∃ written, tcpWriteAll writes 0 (payloads MessageSendJudge.dumps
        ((posts.map Post.submission).map Submission.message)
        (messages_sendable (submissions_taken h))) = some written ∧
      ∀ (closed : Bool) (arrived : List Str), arrived.flatten = written.flatten → ∀ k,
        serverReceiver.events closed k arrived =
          (posts.take k).map fun p => .passed p.submission.message true := by
  constructor
  · intro p hp later
    obtain ⟨req, r, hdeal, hr, hcalled, sent, hsent, hbytes⟩ := (h p hp).served later
    refine ⟨req, r, sent, hdeal, hr, hcalled, hsent, ?_⟩
    rw [hbytes]
    exact literal_announces Response.init .ok .json ⟨okText, okText_literal⟩
  · obtain ⟨-, written, hwritten, hevents⟩ :=
      submissions_reach_judge (posts.map Post.submission) (submissions_taken h) writes hwrites
    refine ⟨written, hwritten, fun closed arrived harrived k => ?_⟩
    rw [hevents closed arrived harrived k, ← List.map_take, List.map_map]
    rfl

/-! ### A post in two pieces -/

theorem postLine_printable : ∀ c ∈ ascii "85", isCtl c = false := by
  show ∀ c ∈ ([56, 53] : Str), isCtl c = false
  exact List.forall_mem_cons.mpr ⟨rfl, List.forall_mem_singleton.mpr rfl⟩

theorem postLine_trimmed : ∀ c ∈ (ascii "85").getLast?, isBlank c = false := by
  intro c hc
  cases hc
  rfl

theorem postLine_named : some (ascii "Content-Length") ≠ none →
    ∀ c ∈ (ascii "85" ++ []).head?, isBlank c = false := by
  intro _ c hc
  cases hc
  rfl

theorem postLine_before : ∀ c ∈ [sp], isBlank c = true := exampleLine.before_blank

theorem postLine_behind : ∀ c ∈ ([] : Str), isBlank c = true := List.forall_mem_nil _

theorem postLine_continued : some (ascii "Content-Length") = none →
    [sp] = [] ∧ (ascii "85" ++ []).head?.any isBlank = true := by
  intro h
  exact absurd h (Option.some_ne_none _)

/-- The line with the length of the example's text. -/
def postLine : HeaderLine where
  name := some (ascii "Content-Length")
  before := [sp]
  value := ascii "85"
  behind := []
  eol := .full
  token := exampleLine_token
  before_blank := postLine_before
  printable := postLine_printable
  behind_blank := postLine_behind
  trimmed := postLine_trimmed
  named := postLine_named
  continued := postLine_continued

theorem postHead_plain : ∀ c ∈ ascii "/handleJudge", isPathChar c = true :=
  List.all_eq_true.mp (by decide +kernel)

theorem postHead_named : ∀ l ∈ [postLine].head?, l.name ≠ none := by
  intro l hl
  cases hl
  exact Option.some_ne_none (ascii "Content-Length")

/-- The head of the example. -/
def postHead : HeadText :=
  { exampleHead with
    path := ascii "/handleJudge"
    lines := [postLine]
    path_ne := List.cons_ne_nil _ _
    path_plain := postHead_plain
    first_named := postHead_named }

/-- The example's submission, posted in two pieces. -/
def examplePost : Post where
  submission := exampleSubmission
  head := postHead
  before := [(80, ascii "OST /handleJudge HTTP/1.1\r\nContent-Length: 8")]
  last := (53, ascii "\r\n\r\n" ++ exampleSubmission.body.text)
  routes := [judgeRoute exampleSubmission]
  sends := [100, 19]

theorem examplePost_sent : examplePost.Sent where
  taken := exampleSubmission_taken
  route := List.find?_cons_of_pos (beq_self_eq_true _)
  method := rfl
  path := by decide +kernel
  lines := by decide
  type := by decide +kernel
  stated := by decide +kernel
  bytes := by decide +kernel
  size := by decide +kernel
  headEnd := by decide +kernel
  room := by decide +kernel

/-- The example is answered, and its message comes to the judge. -/
theorem posts_reach_judge_example :
    (∀ later, ∃ req r sent, deal Loop.init (examplePost.reads later) = .processed req ∧
      req.parsed? = some r ∧
      handleJudgeMsg exampleSubmission.order exampleSubmission.junk
          exampleSubmission.oldMemoryLimit exampleSubmission.oldTimeLimit
          exampleSubmission.backend (requestBody r) = .ok exampleSubmission.message ∧
      serve (registerAll examplePost.routes) (examplePost.reads later) [100, 19] = some sent ∧
      Announces .ok okText sent.flatten) ∧
    ∃ written : List Str, ∀ arrived : List Str, arrived.flatten = written.flatten →
      serverReceiver.events true 3 arrived = [.passed exampleSubmission.message true] := by
  obtain ⟨hserved, written, -, hevents⟩ := posts_reach_judge [examplePost]
    (List.forall_mem_singleton.mpr examplePost_sent) (fun _ => 1) fun _ => by decide
  exact ⟨hserved _ List.mem_cons_self, written, fun arrived h => hevents true arrived h 3⟩

end Rojcpp.Backend
