import Rojcpp.Http.Route

/-!
# `http_session::process()`

The outcome of a request passes through five places: the router, the `try` around it, the one
`bool` that comes out of it, the session's reaction to that `bool`, and `res_buff`, which prefers
the constant text.  `Answers` says what the client should be offered; the theorem says for which
requests and handlers it is offered.
-/

namespace Rojcpp.Http

open Call

/-- `http_handle_check_`. -/
def httpHandleCheck (router : HttpRouter) : Call Bool :=
  trying
    (do
      let req ← reading Exchange.req
      let find_route ← router.route req.method0 req.path
      if find_route = false then do
        changingRes fun res => res.setStatus .not_found
        pure false
      else pure true)
    fun thrown =>
      match thrown with
      | .exception what => do
        changingRes fun res => res.setStatusAndContent .internal_server_error .string
          (what ++ ascii " exception in business function")
        pure false
      | .other => do
        changingRes fun res => res.setStatusAndLiteral .internal_server_error .string
          (ascii "unknown exception business function")
        pure false

/-- `http_session::route`. -/
def routeSession (router : HttpRouter) : Call Unit := do
  let checked ← httpHandleCheck router
  if checked = false then changingRes Response.sendNotFound
  else pure ()

/-- `handle_string_body`. -/
def handleStringBody : Call Unit := pure ()

/-- `handle_read`. -/
def handleRead (router : HttpRouter) : Call Unit := do
  let req ← reading Exchange.req
  if req.hasBody = true then do
    let type := req.getContentType
    changingReq fun req => req.setContentType type
    match type with
    | .string => handleStringBody
    | .json => handleStringBody
    | .unknown => handleStringBody
    | _ => throwing (.exception (ascii "not support content-type"))
    routeSession router
  else routeSession router

/-- `process`. -/
def process (router : HttpRouter) : Call Unit := handleRead router

/-- The session when its route is looked up: a body sets the content type. -/
def ParsedRequest.typed (r : ParsedRequest) : ParsedRequest :=
  if r.hasBody = true then r.setContentType r.getContentType else r

/-- The bytes the client should be offered after `process()`: with no route the 404 text, with a
handler that returns what it has put into the response buffer, and with one that throws a
response that starts with the status line of a 500. -/
def Offered (router : HttpRouter) (req : ParsedRequest) (bytes : Str) : Prop :=
  match router.selected req with
  | none => bytes = notFoundResponse
  | some handler =>
    match handler ⟨req.typed, Response.init⟩ with
    | (.ok _, after) => bytes = after.res.buff.data
    | (.error _, _) => toRepString .internal_server_error <+: bytes

/-- `process()` returns, and `res_buff()` then offers what it should. -/
def Answers (router : HttpRouter) (req : ParsedRequest) : Prop :=
  ∃ after, process router ⟨req, Response.init⟩ = (.ok (), after) ∧
    Offered router req after.res.resBuff

/-- A body is of a content type `handle_read` knows. -/
def ParsedRequest.Supported (r : ParsedRequest) : Prop :=
  r.hasBody = true → r.getContentType = .string ∨ r.getContentType = .json ∨
    r.getContentType = .unknown

/-- The handler returns, and the constant text is not set, or is what the buffer holds. -/
def ReturnsBuffer (handler : Call Unit) (x : Exchange) : Prop :=
  ∃ after, handler x = (.ok (), after) ∧
    (after.res.constRespone = [] ∨ after.res.constRespone = after.res.buff.data)

/-! ### From the handler to the offered bytes -/

@[simp] theorem typed_method0 (r : ParsedRequest) : r.typed.method0 = r.method0 := by
  rw [ParsedRequest.typed]
  split <;> rfl

@[simp] theorem typed_path (r : ParsedRequest) : r.typed.path = r.path := by
  rw [ParsedRequest.typed]
  split <;> rfl

@[simp] theorem selected_typed (router : HttpRouter) (r : ParsedRequest) :
    router.selected r.typed = router.selected r := by
  simp only [HttpRouter.selected, typed_method0, typed_path]

section
variable {router : HttpRouter} (x : Exchange)

/-- Without a route the check answers `false`. -/
theorem httpHandleCheck_none (h : router.selected x.req = none) :
    httpHandleCheck router x =
      (.ok false, { x with res := x.res.setStatus .not_found }) := by
  apply trying_ok
  rw [reading_bind, HttpRouter.route_none h]
  rfl

/-- A handler that returns: the check answers `true`. -/
theorem httpHandleCheck_returned {handler : Call Unit} {after : Exchange}
    (h : router.selected x.req = some handler) (hreturn : handler x = (.ok (), after)) :
    httpHandleCheck router x = (.ok true, after) := by
  have hroute : router.route x.req.method0 x.req.path x = (.ok true, after) := by
    rw [HttpRouter.route_some h, bind_ok hreturn, pure_apply]
  apply trying_ok
  rw [reading_bind, bind_ok hroute]
  rfl

/-- **A handler that throws**: the check answers `false`, as it does without a route. -/
theorem httpHandleCheck_thrown {handler : Call Unit} {after : Exchange} {e : Thrown}
    (h : router.selected x.req = some handler) (hthrow : handler x = (.error e, after)) :
    ∃ y, httpHandleCheck router x = (.ok false, y) := by
  have hroute : router.route x.req.method0 x.req.path x = (.error e, after) := by
    rw [HttpRouter.route_some h, bind_error hthrow]
  have hbody : (do
      let req ← reading Exchange.req
      let find_route ← router.route req.method0 req.path
      if find_route = false then do
        changingRes fun res => res.setStatus .not_found
        pure false
      else pure true : Call Bool) x = (.error e, after) := by
    rw [reading_bind, bind_error hroute]
  rw [httpHandleCheck, trying_error hbody]
  cases e with
  | exception what => exact ⟨_, rfl⟩
  | other => exact ⟨_, rfl⟩

/-- `false` makes the session offer the 404 text, whatever the check has put into the buffer. -/
theorem routeSession_false {y : Exchange} (h : httpHandleCheck router x = (.ok false, y)) :
    routeSession router x = (.ok (), { y with res := y.res.sendNotFound }) := by
  rw [routeSession, bind_ok h]
  rfl

theorem routeSession_true {y : Exchange} (h : httpHandleCheck router x = (.ok true, y)) :
    routeSession router x = (.ok (), y) := by
  rw [routeSession, bind_ok h]
  rfl

end

section
variable (router : HttpRouter) (req : ParsedRequest)

/-- With a known content type the request comes to the route. -/
theorem process_supported (h : req.Supported) :
    process router ⟨req, Response.init⟩ = routeSession router ⟨req.typed, Response.init⟩ := by
  rw [process, handleRead, reading_bind, ParsedRequest.typed]
  by_cases hbody : req.hasBody = true
  · rw [if_pos hbody, if_pos hbody]
    rcases h hbody with htype | htype | htype
    all_goals
      simp only [htype, changingReq_bind]
      rfl
  · rw [if_neg hbody, if_neg hbody]

/-- Any other content type is thrown out of `process()`. -/
theorem process_unsupported (h : ¬ req.Supported) :
    ∃ y, process router ⟨req, Response.init⟩ =
      (.error (.exception (ascii "not support content-type")), y) := by
  have hbody : req.hasBody = true := by
    by_contra hnone
    exact h fun hbody => absurd hbody hnone
  have htype : ¬ (req.getContentType = .string ∨ req.getContentType = .json ∨
      req.getContentType = .unknown) := fun htype => h fun _ => htype
  rw [process, handleRead, reading_bind, if_pos hbody, changingReq_bind]
  cases hval : req.getContentType with
  | string => exact absurd (.inl hval) htype
  | json => exact absurd (.inr (.inl hval)) htype
  | unknown => exact absurd (.inr (.inr hval)) htype
  | _ => exact ⟨_, rfl⟩

end

/-- The 404 text is no 500 response. -/
theorem notFoundResponse_not_500 : ¬ toRepString .internal_server_error <+: notFoundResponse := by
  decide

section
variable {router : HttpRouter} {req : ParsedRequest} {handler : Call Unit} {after : Exchange}

theorem offered_returned (hselect : router.selected req = some handler)
    (hreturn : handler ⟨req.typed, Response.init⟩ = (.ok (), after)) (bytes : Str) :
    Offered router req bytes ↔ bytes = after.res.buff.data := by
  rw [Offered, hselect]
  simp only [hreturn]

theorem offered_thrown {e : Thrown} (hselect : router.selected req = some handler)
    (hthrow : handler ⟨req.typed, Response.init⟩ = (.error e, after)) (bytes : Str) :
    Offered router req bytes ↔ toRepString .internal_server_error <+: bytes := by
  rw [Offered, hselect]
  simp only [hthrow]

end

/-- What is offered after the route of a request with a known content type. -/
theorem offered_supported_iff (router : HttpRouter) (req : ParsedRequest) :
    (∃ after, routeSession router ⟨req.typed, Response.init⟩ = (.ok (), after) ∧
      Offered router req after.res.resBuff) ↔
    ∀ handler, router.selected req = some handler →
      ReturnsBuffer handler ⟨req.typed, Response.init⟩ := by
  cases hselect : router.selected req with
  | none =>
    have hcheck := httpHandleCheck_none ⟨req.typed, Response.init⟩
      ((selected_typed router req).trans hselect)
    refine iff_of_true ⟨_, routeSession_false _ hcheck, ?_⟩ (fun handler h => nomatch h)
    rw [Offered, hselect]
    exact Response.resBuff_sendNotFound _
  | some handler =>
    have hselect' : router.selected req.typed = some handler :=
      (selected_typed router req).trans hselect
    have hall : (∀ h, some handler = some h → ReturnsBuffer h ⟨req.typed, Response.init⟩) ↔
        ReturnsBuffer handler ⟨req.typed, Response.init⟩ := by
      simp only [Option.some.injEq, forall_eq']
    rw [hall, ReturnsBuffer]
    rcases hrun : handler ⟨req.typed, Response.init⟩ with ⟨outcome, after⟩
    cases outcome with
    | error e =>
      -- the 500 text the check has built stays in the buffer, behind the 404 text
      obtain ⟨y, hcheck⟩ := httpHandleCheck_thrown ⟨req.typed, Response.init⟩ hselect' hrun
      rw [routeSession_false _ hcheck]
      apply iff_of_false
      · rintro ⟨_, hy, hoffer⟩
        cases hy
        rw [offered_thrown hselect hrun, Response.resBuff_sendNotFound] at hoffer
        exact notFoundResponse_not_500 hoffer
      · rintro ⟨_, hy, -⟩
        cases hy
    | ok u =>
      have hcheck := httpHandleCheck_returned ⟨req.typed, Response.init⟩ hselect' hrun
      rw [routeSession_true _ hcheck]
      constructor
      · rintro ⟨_, hy, hoffer⟩
        cases hy
        rw [offered_returned hselect hrun] at hoffer
        exact ⟨_, rfl, (Response.resBuff_eq_data _).mp hoffer⟩
      · rintro ⟨_, hy, hconst⟩
        cases hy
        refine ⟨_, rfl, ?_⟩
        rw [offered_returned hselect hrun]
        exact (Response.resBuff_eq_data _).mpr hconst

/-- **Which requests are answered as they should be**: those whose body, if there is one, is of a
known content type, and whose handler, if one is selected, returns and has not called
`send_not_found`. -/
theorem process_answers_iff (router : HttpRouter) (req : ParsedRequest) :
    Answers router req ↔ req.Supported ∧
      ∀ handler, router.selected req = some handler →
        ReturnsBuffer handler ⟨req.typed, Response.init⟩ := by
  by_cases h : req.Supported
  · rw [Answers, process_supported router req h, offered_supported_iff, and_iff_right h]
  · obtain ⟨y, hy⟩ := process_unsupported router req h
    rw [Answers, hy]
    apply iff_of_false
    · rintro ⟨_, hreturn, -⟩
      cases hreturn
    · exact fun hboth => h hboth.1

/-- A `GET /a` without a body. -/
def plainRequest : ParsedRequest where
  buff := Buffer.init
  head := ⟨ascii "GET", ascii "/a", 1, []⟩
  headerLen := 18
  bodyLen := 0
  path := ascii "/a"
  queryMap := []
  contentType := .unknown
  method_ne := by decide

/-- One route, whose handler throws. -/
def throwingRouter : HttpRouter :=
  HttpRouter.registerHandler (fun _ => none) [.GET] (ascii "/a")
    (throwing (.exception (ascii "bad"))) []

/-- The handler of this route throws, and the client is offered the 404 text. -/
theorem thrown_not_answered : ¬ ∀ router req, Answers router req := by
  intro hall
  obtain ⟨after, hrun, hoffer⟩ := hall throwingRouter plainRequest
  have hafter : after.res.resBuff = notFoundResponse := by
    rw [← (Prod.mk.inj hrun).2]
    rfl
  rw [hafter] at hoffer
  exact notFoundResponse_not_500 hoffer

end Rojcpp.Http
