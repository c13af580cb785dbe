import Rojcpp.Http.Buffers

/-!
# `rojcpp::response`

The response a handler fills in: the status and content-type lines, `append_buff` over the growing
buffer, and the two overloads of `set_status_and_content`.  `send_not_found` does not touch the
buffer, it stores a constant text beside it.

The other headers are left out, because nothing that builds the bytes reads them.
-/

namespace Rojcpp.Http

open Rojcpp.Lib

/-- `status_type`. -/
inductive StatusType where
  | init
  | switching_protocols
  | ok
  | created
  | accepted
  | no_content
  | partial_content
  | multiple_choices
  | moved_permanently
  | moved_temporarily
  | not_modified
  | temporary_redirect
  | bad_request
  | unauthorized
  | forbidden
  | not_found
  | internal_server_error
  | not_implemented
  | bad_gateway
  | service_unavailable
  deriving DecidableEq, Repr

/-- `content_type`. -/
inductive ContentType where
  | string
  | html
  | json
  | multipart
  | urlencoded
  | chunked
  | octet_stream
  | websocket
  | unknown
  | none
  deriving DecidableEq, Repr

/-- `to_rep_string`. -/
def toRepString : StatusType → Str
  | .switching_protocols => ascii "HTTP/1.1 101 Switching Protocals\r\n"
  | .ok => ascii "HTTP/1.1 200 OK\r\n"
  | .created => ascii "HTTP/1.1 201 Created\r\n"
  | .accepted => ascii "HTTP/1.1 202 Accepted\r\n"
  | .no_content => ascii "HTTP/1.1 204 No Content\r\n"
  | .partial_content => ascii "HTTP/1.1 206 Partial Content\r\n"
  | .multiple_choices => ascii "HTTP/1.1 300 Multiple Choices\r\n"
  | .moved_permanently => ascii "HTTP/1.1 301 Moved Permanently\r\n"
  | .moved_temporarily => ascii "HTTP/1.1 302 Moved Temporarily\r\n"
  | .not_modified => ascii "HTTP/1.1 304 Not Modified\r\n"
  | .temporary_redirect => ascii "HTTP/1.1 307 Temporary Redirect\r\n"
  | .bad_request => ascii "HTTP/1.1 400 Bad Request\r\n"
  | .unauthorized => ascii "HTTP/1.1 401 Unauthorized\r\n"
  | .forbidden => ascii "HTTP/1.1 403 Forbidden\r\n"
  | .not_found => ascii "HTTP/1.1 404 Not Found\r\n"
  | .internal_server_error => ascii "HTTP/1.1 500 Internal Server Error\r\n"
  | .not_implemented => ascii "HTTP/1.1 501 Not Implemented\r\n"
  | .bad_gateway => ascii "HTTP/1.1 502 Bad Gateway\r\n"
  | .service_unavailable => ascii "HTTP/1.1 503 Service Unavailable\r\n"
  | .init => ascii "HTTP/1.1 501 Not Implemented\r\n"

/-- `to_content_type_str`. -/
def toContentTypeStr : ContentType → Str
  | .html => ascii "Content-Type: text/html; charset=UTF-8\r\n"
  | .json => ascii "Content-Type: application/json; charset=UTF-8\r\n"
  | .string => ascii "Content-Type: text/plain; charset=UTF-8\r\n"
  | .multipart => ascii "Content-Type: multipart/form-data; boundary="
  | _ => []

/-- `rep_server`. -/
def repServer : Str := ascii "Server: rojcpp\r\n"

/-- `header_end_sv`. -/
def headerEnd : Str := ascii "\r\n"

/-- `detail::to_chars`. -/
def toChars (digits : List ℕ) : Str :=
  ascii "Content-Length: " ++ digits.map digitByte ++ ascii "\r\n"

/-- `detail::explode`: a recursion over templates, which puts the digits of `rem` in front of
`digits` one at a time. -/
def explode (rem : ℕ) (digits : List ℕ) : Str :=
  if rem = 0 then toChars digits else explode (rem / 10) (rem % 10 :: digits)
  termination_by rem
  decreasing_by omega

/-- `num_to_string<num>::value`. -/
def numToString (num : ℕ) : Str := explode (num / 10) [num % 10]

theorem explode_eq (rem : ℕ) : ∀ digits : List ℕ,
    explode rem digits = toChars ((Nat.digits 10 rem).reverse ++ digits) := by
  induction rem using Nat.strong_induction_on with
  | _ rem ih =>
    intro digits
    rw [explode]
    by_cases hzero : rem = 0
    · rw [if_pos hzero, hzero]
      rfl
    · have hdigits : Nat.digits 10 rem = rem % 10 :: Nat.digits 10 (rem / 10) :=
        Nat.digits_def' (by omega) (by omega)
      rw [if_neg hzero, ih (rem / 10) (by omega), hdigits, List.reverse_cons, List.append_assoc]
      rfl

/-- **The template recursion writes the decimal numeral**, for every length. -/
theorem numToString_eq (num : ℕ) :
    numToString num = ascii "Content-Length: " ++ decimal num ++ ascii "\r\n" := by
  rw [numToString, explode_eq, toChars]
  congr 2
  by_cases hzero : num = 0
  · rw [hzero]
    rfl
  · have hdigits : Nat.digits 10 num = num % 10 :: Nat.digits 10 (num / 10) :=
      Nat.digits_def' (by omega) (by omega)
    rw [decimal, if_neg hzero, hdigits, List.reverse_cons]

/-- The parts of `response` that decide which bytes are sent. -/
structure Response where
  buff : Buffer
  constRespone : Str
  status : StatusType
  deriving DecidableEq, Repr

/-- A response as its constructor leaves it. -/
def Response.init : Response := ⟨Buffer.init, [], .init⟩

/-- The loop of `append_buff` that makes room for `size` bytes.  Every turn triples the memory, so
that the fuel `append_buff` gives it is more than a 64-bit size can need. -/
def Buffer.makeRoom (size : ℕ) : ℕ → Buffer → Buffer
  | 0, b => b
  | fuel + 1, b => if b.leftSize < size then makeRoom size fuel b.expandTwiceSize else b

/-- `append_buff(buff, buff_size)`. -/
def Buffer.append (b : Buffer) (bytes : Str) : Buffer :=
  let b := if b.totMem = 0 then b.expandSize (32 * 1024) else b
  (b.makeRoom bytes.length 64).updateUsedSized bytes

/-- `Buffer::clear`. -/
def Buffer.clear (b : Buffer) : Buffer := { b with data := [] }

/-- `append_buff`. -/
def Response.appendBuff (r : Response) (bytes : Str) : Response :=
  { r with buff := r.buff.append bytes }

/-- `append_buff(const char *)` through `std::string_view`, which ends at the first zero byte. -/
def Response.appendLiteral (r : Response) (content : Str) : Response :=
  r.appendBuff (content.takeWhile fun c => c != 0)

/-- `append_buff_number`: the digits are stored as numbers, not as characters. -/
def Response.appendBuffNumber (r : Response) (num : ℕ) : Response :=
  r.appendBuff (if num = 0 then [0] else (Nat.digits 10 num).reverse.map UInt8.ofNat)

/-- `set_status_and_content` for a string literal; `content` is the literal without its closing
zero byte. -/
def Response.setStatusAndLiteral (r : Response) (status : StatusType) (type : ContentType)
    (content : Str) : Response :=
  ((((({ r with buff := r.buff.clear }.appendBuff (toRepString status)).appendBuff
    (toContentTypeStr type)).appendBuff repServer).appendBuff
    (numToString content.length)).appendBuff (ascii "\r\n")).appendLiteral content

/-- `set_status_and_content` for a `std::string`, whose length is stored in an `int` first. -/
def Response.setStatusAndContent (r : Response) (status : StatusType) (type : ContentType)
    (str : Str) : Response :=
  let len_str := (Int32.ofNat str.length).toInt64.toUInt64.toNat
  (((((({ r with buff := r.buff.clear }.appendBuff (toRepString status)).appendBuff
    (toContentTypeStr type)).appendBuff repServer).appendBuff
    (ascii "content_length: ")).appendBuffNumber len_str).appendBuff
    (ascii "\r\n\r\n")).appendBuff (str.take len_str)

/-- `set_status`. -/
def Response.setStatus (r : Response) (status : StatusType) : Response := { r with status }

/-- The constant text of `send_not_found`. -/
def notFoundResponse : Str := toRepString .not_found ++ repServer ++ headerEnd

/-- `send_not_found`. -/
def Response.sendNotFound (r : Response) : Response := { r with constRespone := notFoundResponse }

/-- `http_session::res_buff`: the constant text, when there is one, stands before the buffer. -/
def Response.resBuff (r : Response) : Str :=
  if r.constRespone.length ≠ 0 then r.constRespone else r.buff.data

/-! ### The buffer under `append_buff` -/

@[simp] theorem Buffer.expandTwiceSize_data (b : Buffer) : b.expandTwiceSize.data = b.data := rfl

@[simp] theorem Buffer.makeRoom_data (size fuel : ℕ) : ∀ b : Buffer,
    (b.makeRoom size fuel).data = b.data := by
  induction fuel with
  | zero => exact fun _ => rfl
  | succ fuel ih =>
    intro b
    rw [makeRoom]
    split
    · rw [ih, expandTwiceSize_data]
    · rfl

/-- **Growing keeps what is there**: after `append_buff` the used bytes are those of before and
the new ones. -/
@[simp] theorem Buffer.append_data (b : Buffer) (bytes : Str) :
    (b.append bytes).data = b.data ++ bytes := by
  rw [append]
  simp only [updateUsedSized_data, makeRoom_data]
  split <;> rfl

/-- Each turn of the loop triples the memory, so a memory of `2 ^ 62` bytes is there after as many
turns as the exponent of the power of three says, unless the loop has ended before. -/
theorem Buffer.makeRoom_room (size fuel : ℕ) : ∀ b : Buffer, 0 < b.totMem →
    b.usedSize ≤ b.totMem → b.totMem < 2 ^ 64 → b.usedSize + size ≤ 2 ^ 62 →
    2 ^ 62 ≤ b.totMem * 3 ^ fuel → size ≤ (b.makeRoom size fuel).leftSize := by
  induction fuel with
  | zero =>
    intro b hpos hused htot hsize henough
    rw [makeRoom, b.leftSize_eq hused htot]
    omega
  | succ fuel ih =>
    intro b hpos hused htot hsize henough
    rw [makeRoom]
    by_cases hleft : b.leftSize < size
    · rw [if_pos hleft]
      rw [b.leftSize_eq hused htot] at hleft
      have hgrown := expandTwiceSize_totMem hpos
      have hkept : b.expandTwiceSize.usedSize = b.usedSize := rfl
      apply ih
      · omega
      · omega
      · omega
      · omega
      · calc 2 ^ 62 ≤ b.totMem * 3 ^ (fuel + 1) := henough
          _ = b.expandTwiceSize.totMem * 3 ^ fuel := by rw [hgrown, Nat.pow_succ]; ring
    · rw [if_neg hleft]
      exact Nat.le_of_not_lt hleft

/-- **The loop of `append_buff` ends with enough room**: 64 turns suffice for every memory that is
not empty. -/
theorem Buffer.makeRoom_enough (b : Buffer) (size : ℕ) (hpos : 0 < b.totMem)
    (hused : b.usedSize ≤ b.totMem) (htot : b.totMem < 2 ^ 64)
    (hsize : b.usedSize + size ≤ 2 ^ 62) : size ≤ (b.makeRoom size 64).leftSize := by
  apply b.makeRoom_room size 64 hpos hused htot hsize
  have h64 : 2 ^ 62 ≤ 3 ^ 64 := by norm_num
  calc 2 ^ 62 ≤ 1 * 3 ^ 64 := by omega
    _ ≤ b.totMem * 3 ^ 64 := Nat.mul_le_mul_right _ hpos

/-! ### What a response offers -/

@[simp] theorem Response.resBuff_sendNotFound (r : Response) :
    r.sendNotFound.resBuff = notFoundResponse := by
  have hlength : notFoundResponse.length ≠ 0 := by decide
  exact if_pos hlength

theorem Response.resBuff_eq_data (r : Response) :
    r.resBuff = r.buff.data ↔ r.constRespone = [] ∨ r.constRespone = r.buff.data := by
  rw [resBuff]
  by_cases hconst : r.constRespone = []
  · simp [hconst]
  · simp [hconst]

end Rojcpp.Http
