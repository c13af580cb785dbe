import Rojcpp.Http.PicoParser
import Rojcpp.Http.Response
import Rojcpp.Lib.HeaderBlock

/-!
# What `set_status_and_content` leaves in the buffer

The overload for a string literal computes the `Content-Length` line from the length of the array
while it is compiled.  The overload for a `std::string` writes a header of another name, and the
digits as numbers instead of characters.

A receiver sees a message: a status line, headers, an empty line and a body.  `Announces` says
that the bytes are one whose body is the content and which states its length; the library of
messages gives that no other message has the same bytes.
-/

namespace Rojcpp.Http

open Rojcpp.Lib

/-! ### Lines -/

/-- A text that is one line and its end. -/
def isClosedLine (s : Str) : Bool :=
  !s.dropLast.dropLast.isEmpty && !s.dropLast.dropLast.contains cr &&
    s == s.dropLast.dropLast ++ [cr, lf]

theorem line_of_closed {s : Str} (h : isClosedLine s = true) :
    ∃ l : Line cr, l.text = s.dropLast.dropLast ∧ s = l.text ++ [cr, lf] := by
  simp only [isClosedLine, Bool.and_eq_true, Bool.not_eq_true', List.isEmpty_eq_false_iff,
    List.contains_eq_mem, decide_eq_false_iff_not, beq_iff_eq] at h
  exact ⟨⟨_, h.1.1, h.1.2⟩, rfl, h.2⟩

/-- Every status is one line. -/
theorem status_closed (status : StatusType) : isClosedLine (toRepString status) = true := by
  cases status <;> decide +kernel

/-- The name in front of the length. -/
def lengthName : Str := ascii "Content-Length: "

/-- The line that states a length. -/
def lengthLine (n : ℕ) : Line cr where
  text := lengthName ++ decimal n
  nonempty := by
    intro h
    exact decimal_ne_nil n (List.append_eq_nil_iff.mp h).2
  noEnd := by
    intro h
    rcases List.mem_append.mp h with h | h
    · exact absurd h (by decide +kernel)
    · exact absurd (decimal_isDigit n _ h) (by decide)

/-- Lines that do not state a length. -/
def NoLength (ls : List (Line cr)) : Prop := ∀ l ∈ ls, lengthName.isPrefixOf l.text = false

theorem noLength_lengthLine {ls : List (Line cr)} (h : NoLength ls) (n : ℕ) :
    lengthLine n ∉ ls := by
  intro hmem
  have hprefix : lengthName.isPrefixOf (lengthLine n).text = true :=
    List.isPrefixOf_iff_prefix.mpr (List.prefix_append _ _)
  rw [h _ hmem] at hprefix
  cases hprefix

/-- One closed line in front of a block. -/
theorem closed_block {s : Str} (h : isClosedLine s = true)
    (hname : lengthName.isPrefixOf s.dropLast.dropLast = false) :
    ∃ l : Line cr, NoLength [l] ∧ ∀ ls, s ++ block lf ls = block lf (l :: ls) := by
  obtain ⟨l, hl, hs⟩ := line_of_closed h
  refine ⟨l, ?_, fun ls => ?_⟩
  · intro l' hl'
    rw [List.mem_singleton.mp hl', hl]
    exact hname
  · rw [hs, List.append_assoc]
    rfl

/-- The lines of the content type and the server.  The multipart type has no line end, so that the
server stands on its line. -/
theorem typeServer_block (type : ContentType) :
    ∃ hs : List (Line cr), NoLength hs ∧
      ∀ ls, toContentTypeStr type ++ (repServer ++ block lf ls) = block lf (hs ++ ls) := by
  obtain ⟨server, hserver, hblock⟩ :=
    @closed_block repServer (by decide +kernel) (by decide +kernel)
  have hnone : toContentTypeStr type = [] → ∃ hs : List (Line cr), NoLength hs ∧
      ∀ ls, toContentTypeStr type ++ (repServer ++ block lf ls) = block lf (hs ++ ls) := by
    intro h
    refine ⟨[server], hserver, fun ls => ?_⟩
    rw [h, List.nil_append, hblock]
    rfl
  have hline : isClosedLine (toContentTypeStr type) = true →
      lengthName.isPrefixOf (toContentTypeStr type).dropLast.dropLast = false →
      ∃ hs : List (Line cr), NoLength hs ∧
        ∀ ls, toContentTypeStr type ++ (repServer ++ block lf ls) = block lf (hs ++ ls) := by
    intro h hname
    obtain ⟨l, hl, hlblock⟩ := closed_block h hname
    refine ⟨[l, server], ?_, fun ls => ?_⟩
    · intro l' hl'
      rcases List.mem_cons.mp hl' with rfl | hl'
      · exact hl _ List.mem_cons_self
      · exact hserver l' hl'
    · rw [hblock, hlblock]
      rfl
  cases type with
  | html => exact hline (by decide +kernel) (by decide +kernel)
  | json => exact hline (by decide +kernel) (by decide +kernel)
  | string => exact hline (by decide +kernel) (by decide +kernel)
  | multipart =>
    obtain ⟨l, hl, hlblock⟩ := @closed_block (toContentTypeStr .multipart ++ repServer)
      (by decide +kernel) (by decide +kernel)
    refine ⟨[l], hl, fun ls => ?_⟩
    rw [← List.append_assoc, hlblock]
    rfl
  | urlencoded => exact hnone rfl
  | chunked => exact hnone rfl
  | octet_stream => exact hnone rfl
  | websocket => exact hnone rfl
  | unknown => exact hnone rfl
  | none => exact hnone rfl

/-! ### What a receiver sees -/

/-- The bytes are a message with this status and body, which states the body's length. -/
def Announces (status : StatusType) (content bytes : Str) : Prop :=
  ∃ m : Message cr, bytes = m.text lf ∧ m.start.text ++ [cr, lf] = toRepString status ∧
    lengthLine content.length ∈ m.headers ∧ m.body = content

/-- The two overloads leave the same bytes, and these announce the content. -/
def SameAnnouncement (r₁ r₂ : Response) (status : StatusType) (type : ContentType)
    (content : Str) : Prop :=
  (r₁.setStatusAndLiteral status type content).buff.data =
      (r₂.setStatusAndContent status type content).buff.data ∧
    Announces status content (r₁.setStatusAndLiteral status type content).buff.data

/-- A literal has no zero byte in front of its end. -/
abbrev Literal := { content : Str // (0 : UInt8) ∉ content }

/-- What both overloads put together: the lines of the status, the type and the server, one more
line, the empty line and the content. -/
theorem message_of_line (status : StatusType) (type : ContentType) (l : Line cr) (body : Str) :
    ∃ (start : Line cr) (hs : List (Line cr)), NoLength hs ∧
      start.text ++ [cr, lf] = toRepString status ∧
      toRepString status ++ (toContentTypeStr type ++ (repServer ++ (block lf [l] ++ body))) =
        Message.text lf ⟨start, hs ++ [l], body⟩ := by
  obtain ⟨start, -, hstart⟩ := line_of_closed (status_closed status)
  obtain ⟨hs, hnone, hblock⟩ := typeServer_block type
  refine ⟨start, hs, hnone, hstart.symm, ?_⟩
  rw [← List.append_assoc repServer, ← List.append_assoc (toContentTypeStr type), hblock, hstart,
    Message.text, block]
  simp only [List.append_assoc, List.cons_append, List.nil_append]

/-- The literal's overload. -/
theorem literal_announces (r : Response) (status : StatusType) (type : ContentType)
    (content : Literal) :
    Announces status content.1 (r.setStatusAndLiteral status type content.1).buff.data := by
  obtain ⟨start, hs, -, hstart, htext⟩ :=
    message_of_line status type (lengthLine content.1.length) content.1
  refine ⟨⟨start, hs ++ [lengthLine content.1.length], content.1⟩, ?_, hstart, by simp, rfl⟩
  have hall : ∀ c ∈ content.1, (c != 0) = true := by
    intro c hc
    rw [bne_iff_ne]
    intro hzero
    exact content.2 (hzero ▸ hc)
  have hwhole : content.1.takeWhile (fun c => c != 0) = content.1 :=
    List.takeWhile_eq_self_iff.mpr hall
  have hend : numToString content.1.length ++ (ascii "\r\n" ++ content.1) =
      block lf [lengthLine content.1.length] ++ content.1 := by
    rw [numToString_eq]
    show lengthName ++ decimal _ ++ [cr, lf] ++ ([cr, lf] ++ content.1) =
      lengthName ++ decimal _ ++ cr :: lf :: [cr, lf] ++ content.1
    simp only [List.append_assoc, List.cons_append, List.nil_append]
  have hdata : (r.setStatusAndLiteral status type content.1).buff.data =
      toRepString status ++ (toContentTypeStr type ++ (repServer ++
        (numToString content.1.length ++ (ascii "\r\n" ++ content.1)))) := by
    simp only [Response.setStatusAndLiteral, Response.appendLiteral, Response.appendBuff,
      Buffer.append_data, Buffer.clear, hwhole, List.nil_append, List.append_assoc]
  rw [hdata, hend, htext]

/-- The digits of a number as the run-time loop stores them are no line end. -/
theorem rawDigits_noEnd (n : ℕ) :
    cr ∉ (if n = 0 then [0] else (Nat.digits 10 n).reverse.map UInt8.ofNat) := by
  intro h
  by_cases hzero : n = 0
  · rw [if_pos hzero] at h
    exact absurd h (by decide)
  · rw [if_neg hzero] at h
    obtain ⟨d, hd, hcr⟩ := List.mem_map.mp h
    have hlt : d < 10 := Nat.digits_lt_base (by omega) (List.mem_reverse.mp hd)
    have hnat := congrArg UInt8.toNat hcr
    rw [UInt8.toNat_ofNat'] at hnat
    have h13 : cr.toNat = 13 := rfl
    omega

/-- The other overload: a message without a length. -/
theorem content_message (r : Response) (status : StatusType) (type : ContentType)
    (content : Str) : ∃ m : Message cr, NoLength m.headers ∧
      (r.setStatusAndContent status type content).buff.data = m.text lf := by
  generalize hlen : (Int32.ofNat content.length).toInt64.toUInt64.toNat = len
  generalize hraw : (if len = 0 then [0] else (Nat.digits 10 len).reverse.map UInt8.ofNat) = raw
  have hraw_cr : cr ∉ raw := hraw ▸ rawDigits_noEnd len
  have hname_cr : cr ∉ ascii "content_length: " := by decide +kernel
  have hline : ∃ l : Line cr, l.text = ascii "content_length: " ++ raw := by
    refine ⟨⟨_, ?_, ?_⟩, rfl⟩
    · intro h
      exact absurd (List.append_eq_nil_iff.mp h).1 (by decide +kernel)
    · intro h
      exact (List.mem_append.mp h).elim hname_cr hraw_cr
  obtain ⟨l, hl⟩ := hline
  obtain ⟨start, hs, hnone, -, htext⟩ := message_of_line status type l (content.take len)
  refine ⟨⟨start, hs ++ [l], content.take len⟩, ?_, ?_⟩
  · intro l' hl'
    rcases List.mem_append.mp hl' with hl' | hl'
    · exact hnone l' hl'
    · rw [List.mem_singleton.mp hl', hl]
      rfl
  · have hend : ascii "content_length: " ++ (raw ++ (ascii "\r\n\r\n" ++ content.take len)) =
        block lf [l] ++ content.take len := by
      rw [block, block, hl]
      simp only [List.append_assoc]
      rfl
    have hdata : (r.setStatusAndContent status type content).buff.data =
        toRepString status ++ (toContentTypeStr type ++ (repServer ++
          (ascii "content_length: " ++ (raw ++ (ascii "\r\n\r\n" ++ content.take len))))) := by
      simp only [Response.setStatusAndContent, Response.appendBuffNumber, Response.appendBuff,
        Buffer.append_data, Buffer.clear, hlen, hraw, List.nil_append, List.append_assoc]
    rw [hdata, hend, htext]

theorem content_not_announces (r : Response) (status status' : StatusType) (type : ContentType)
    (content content' : Str) :
    ¬ Announces status' content' (r.setStatusAndContent status type content).buff.data := by
  intro ⟨m, htext, _, hmem, _⟩
  obtain ⟨m', hnone, htext'⟩ := content_message r status type content
  have hsame : m' = m := Message.text_injective lf (htext'.symm.trans htext)
  rw [hsame] at hnone
  exact noLength_lengthLine hnone _ hmem

/-- **The overloads never agree.**  Whatever the two buffers held before, for every status, content
type and content the literal's overload announces the content, the string's overload does not, and
so they leave different bytes. -/
theorem overloads_never_agree (r₁ r₂ : Response) (status : StatusType) (type : ContentType)
    (content : Literal) :
    Announces status content.1 (r₁.setStatusAndLiteral status type content.1).buff.data ∧
      ¬ Announces status content.1 (r₂.setStatusAndContent status type content.1).buff.data ∧
      ¬ SameAnnouncement r₁ r₂ status type content.1 := by
  have hnot := content_not_announces r₂ status status type content.1 content.1
  refine ⟨literal_announces r₁ status type content, hnot, ?_⟩
  intro ⟨hsame, hannounces⟩
  rw [hsame] at hannounces
  exact hnot hannounces

/-- What the string's overload makes of `ok`: another header, and the length as a byte of value
two. -/
theorem overloads_differ :
    (Response.init.setStatusAndContent .ok .string (ascii "ok")).buff.data =
      ascii "HTTP/1.1 200 OK\r\nContent-Type: text/plain; charset=UTF-8\r\nServer: rojcpp\r\n" ++
        ascii "content_length: " ++ [2] ++ ascii "\r\n\r\nok" ∧
    ¬ SameAnnouncement Response.init Response.init .ok .string (ascii "ok") := by
  constructor
  · decide +kernel
  · intro ⟨hsame, hannounces⟩
    rw [hsame] at hannounces
    exact content_not_announces _ _ _ _ _ _ hannounces

end Rojcpp.Http
