import Mathlib.Logic.Function.Basic
import Rojcpp.Http.Request
import Rojcpp.Http.Response

/-!
# `rojcpp::http_router`

A handler works on the request and the response of its session and may leave by an exception;
what it has changed before stays changed.  `Call` is that effect.  The router maps a path to a
table of method letters and to a function that runs the access points and the handler.
-/

namespace Rojcpp.Http

/-! ### The request a handler sees -/

/-- The request after a complete parse: every length is known and the method is not empty. -/
structure ParsedRequest where
  buff : Buffer
  head : PhrRequest
  headerLen : ℕ
  bodyLen : ℕ
  path : Str
  queryMap : List (Str × Str)
  contentType : ContentType
  method_ne : head.method ≠ []

/-- The request `process()` starts with, when the parse has stored everything. -/
def Request.parsed? (r : Request) : Option ParsedRequest :=
  match r.parsed, r.headerLen, r.bodyLen with
  | some head, some headerLen, some bodyLen =>
    if h : head.method ≠ [] then
      some ⟨r.buff, head, headerLen, bodyLen, r.path, r.queryMap, .unknown, h⟩
    else none
  | _, _, _ => none

/-- `header_value.find(text) != npos`. -/
def svFind (header_value text : Str) : Bool := header_value.tails.any text.isPrefixOf

/-- `has_body`. -/
def ParsedRequest.hasBody (r : ParsedRequest) : Bool := r.bodyLen != 0

/-- `get_content_type`. -/
def ParsedRequest.getContentType (r : ParsedRequest) : ContentType :=
  let header_value := (getHeaderValue r.head.headers (ascii "content-type")).1
  if r.contentType ≠ .unknown then r.contentType
  else if header_value = [] then r.contentType
  else if svFind header_value (ascii "application/x-www-form-url_encoded") then .urlencoded
  else if svFind header_value (ascii "multipart/form-data") then .multipart
  else if svFind header_value (ascii "application/octet-stream") then .octet_stream
  else if svFind header_value (ascii "application/json") then .json
  else .unknown

/-- `set_content_type`. -/
def ParsedRequest.setContentType (r : ParsedRequest) (type : ContentType) : ParsedRequest :=
  { r with contentType := type }

/-! ### Functions on a request and a response -/

/-- What a function may throw: a `std::exception` with its `what()`, or anything else. -/
inductive Thrown where
  | exception (what : Str)
  | other
  deriving DecidableEq, Repr

/-- The `request &` and the `response &` every function of the session gets. -/
structure Exchange where
  req : ParsedRequest
  res : Response

/-- A function on the two references that may throw: its outcome, and the two after it.  A throw
does not undo what was done. -/
def Call (α : Type) : Type := Exchange → Except Thrown α × Exchange

namespace Call

variable {α β : Type}

/-- One call after the other; a throw skips the rest. -/
def andThen (c : Call α) (f : α → Call β) : Call β := fun x =>
  match c x with
  | (.ok a, y) => f a y
  | (.error e, y) => (.error e, y)

instance callMonad : Monad Call where
  pure a := fun x => (.ok a, x)
  bind := andThen

/-- `throw`. -/
def throwing (e : Thrown) : Call α := fun x => (.error e, x)

/-- `try` and `catch`. -/
def trying (c : Call α) (f : Thrown → Call α) : Call α := fun x =>
  match c x with
  | (.ok a, y) => (.ok a, y)
  | (.error e, y) => f e y

/-- Look at the request and the response. -/
def reading (f : Exchange → α) : Call α := fun x => (.ok (f x), x)

/-- Change the request or the response. -/
def changing (f : Exchange → Exchange) : Call Unit := fun x => (.ok (), f x)

/-- Change the response. -/
def changingRes (f : Response → Response) : Call Unit := changing fun x => ⟨x.req, f x.res⟩

/-- Change the request. -/
def changingReq (f : ParsedRequest → ParsedRequest) : Call Unit :=
  changing fun x => ⟨f x.req, x.res⟩

@[simp] theorem pure_apply (a : α) (x : Exchange) : (pure a : Call α) x = (.ok a, x) := rfl

@[simp] theorem reading_bind (f : Exchange → α) (g : α → Call β) (x : Exchange) :
    (reading f >>= g) x = g (f x) x := rfl

@[simp] theorem changingReq_bind (f : ParsedRequest → ParsedRequest) (g : Unit → Call β)
    (x : Exchange) : (changingReq f >>= g) x = g () ⟨f x.req, x.res⟩ := rfl

/-- What follows a call that returns. -/
theorem bind_ok {c : Call α} {f : α → Call β} {x y : Exchange} {a : α} (h : c x = (.ok a, y)) :
    (c >>= f) x = f a y := by
  show andThen c f x = f a y
  rw [andThen, h]

/-- A throw skips what follows. -/
theorem bind_error {c : Call α} {f : α → Call β} {x y : Exchange} {e : Thrown}
    (h : c x = (.error e, y)) : (c >>= f) x = (.error e, y) := by
  show andThen c f x = (.error e, y)
  rw [andThen, h]

/-- A `try` whose body returns. -/
theorem trying_ok {c : Call α} {f : Thrown → Call α} {x y : Exchange} {a : α}
    (h : c x = (.ok a, y)) : trying c f x = (.ok a, y) := by
  rw [trying, h]

/-- A `try` whose body throws. -/
theorem trying_error {c : Call α} {f : Thrown → Call α} {x y : Exchange} {e : Thrown}
    (h : c x = (.error e, y)) : trying c f x = f e y := by
  rw [trying, h]

end Call

/-! ### Registering and running a route -/

/-- `http_method`, without the member no route can be registered for. -/
inductive HttpMethod where
  | DEL
  | GET
  | HEAD
  | POST
  | PUT
  | CONNECT
  | OPTIONS
  | TRACE
  deriving DecidableEq, Repr

/-- `type_to_name`. -/
def typeToName : HttpMethod → Str
  | .DEL => ascii "DELETE"
  | .GET => ascii "GET"
  | .HEAD => ascii "HEAD"
  | .POST => ascii "POST"
  | .PUT => ascii "PUT"
  | .CONNECT => ascii "CONNECT"
  | .OPTIONS => ascii "OPTIONS"
  | .TRACE => ascii "TRACE"

/-- The place of a capital letter in a `std::array<char, 26>`. -/
def letterIndex (c : UInt8) : Option (Fin 26) :=
  if h : 65 ≤ c.toNat ∧ c.toNat ≤ 90 then some ⟨c.toNat - 65, by omega⟩ else none

/-- `get_method_arr`: each method stores the first letter of its name at that letter's place. -/
def getMethodArr (is : List HttpMethod) : Fin 26 → UInt8 :=
  is.foldl (fun arr m =>
    match (typeToName m).head? with
    | none => arr
    | some c =>
      match letterIndex c with
      | none => arr
      | some i => Function.update arr i c) fun _ => 0

/-- An access point: its class may or may not have `before` and `after`. -/
structure AccessPoint where
  before : Option (Call Bool)
  after : Option (Call Bool)

/-- `do_ap_before` and, over the reversed list, `do_after`: one `false` ends it. -/
def doAp : List (Option (Call Bool)) → Call Bool
  | [] => pure true
  | none :: aps => doAp aps
  | some item :: aps => do
    let r ← item
    if r = true then doAp aps else pure false

/-- `invoke`. -/
def invoke (f : Call Unit) (ap : List AccessPoint) : Call Unit := do
  let r ← doAp (ap.map AccessPoint.before)
  if r = true then do
    f
    let _ ← doAp (ap.reverse.map AccessPoint.after)
    pure ()
  else pure ()

/-- `invoker_function_`. -/
structure InvokerFunction where
  first : Fin 26 → UInt8
  second : Call Unit

/-- `map_invokers_`. -/
abbrev HttpRouter := Str → Option InvokerFunction

/-- `register_handler`: a later call for the same path replaces the earlier one. -/
def HttpRouter.registerHandler (router : HttpRouter) (is : List HttpMethod) (raw_name : Str)
    (f : Call Unit) (ap : List AccessPoint) : HttpRouter :=
  Function.update router raw_name (some ⟨getMethodArr is, invoke f ap⟩)

/-- `route`, with the first byte of the method: whether a route was found and run. -/
def HttpRouter.route (router : HttpRouter) (method0 : UInt8) (url : Str) : Call Bool :=
  match router url with
  | none => pure false
  | some pair =>
    match letterIndex method0 with
    | none => pure false
    | some i =>
      if pair.first i ≠ 0 then do
        pair.second
        pure true
      else pure false

/-- The first byte of the method. -/
def ParsedRequest.method0 (r : ParsedRequest) : UInt8 := r.head.method.head r.method_ne

/-- The function the request selects, when one is registered for its path and its method's first
letter. -/
def HttpRouter.selected (router : HttpRouter) (r : ParsedRequest) : Option (Call Unit) :=
  (router r.path).bind fun pair =>
    (letterIndex r.method0).bind fun i => if pair.first i ≠ 0 then some pair.second else none

/-- Without a route `route` does nothing. -/
theorem HttpRouter.route_none {router : HttpRouter} {r : ParsedRequest}
    (h : router.selected r = none) : router.route r.method0 r.path = pure false := by
  rw [selected] at h
  rw [route]
  cases hpath : router r.path with
  | none => rfl
  | some pair =>
    cases hletter : letterIndex r.method0 with
    | none => rfl
    | some i =>
      rw [hpath, hletter, Option.bind_some, Option.bind_some] at h
      simp only
      split
      · rename_i hslot
        rw [if_pos hslot] at h
        cases h
      · rfl

/-- **A selected function is what `route` runs.** -/
theorem HttpRouter.route_some {router : HttpRouter} {r : ParsedRequest} {f : Call Unit}
    (h : router.selected r = some f) :
    router.route r.method0 r.path = f >>= fun _ => pure true := by
  rw [selected] at h
  rw [route]
  cases hpath : router r.path with
  | none => rw [hpath] at h; cases h
  | some pair =>
    cases hletter : letterIndex r.method0 with
    | none => rw [hpath, hletter] at h; cases h
    | some i =>
      rw [hpath, hletter, Option.bind_some, Option.bind_some] at h
      simp only
      split
      · rename_i hslot
        rw [if_pos hslot] at h
        cases h
        rfl
      · rename_i hslot
        rw [if_neg hslot] at h
        cases h

/-! ### The request after a complete parse -/

/-- **A parse that succeeds leaves a request whose every field is stored.** -/
theorem Request.parsed?_parseHeader (r : Request) (h : 0 ≤ r.parseHeader.1) :
    r.parseHeader.2.parsed?.isSome := by
  cases hparse : phrParseRequest 32 r.buff.data with
  | error e =>
    rw [r.parseHeader_error e hparse] at h
    have hret : ¬ 0 ≤ e.ret := by cases e <;> decide
    exact absurd h hret
  | ok result =>
    obtain ⟨parsed, n⟩ := result
    have hmethod := (phrParseRequest_ok hparse).1
    by_cases hneg : Int32.ofNat n < 0
    · rw [r.parseHeader_negative hparse hneg] at h
      exact absurd hneg (Int32.not_lt.mpr h)
    · by_cases hslash : slash ∉ parsed.path
      · rw [r.parseHeader_noSlash hparse hneg hslash] at h
        have hret : ¬ (0 : Int32) ≤ -1 := by decide
        exact absurd h hret
      · rw [parseHeader, hparse]
        simp only
        rw [if_neg hneg, if_neg hslash]
        split <;> simp only [parsed?, dif_pos hmethod, Option.isSome_some]

end Rojcpp.Http
