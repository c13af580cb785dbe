import Rojcpp.Judge.SocketBase

/-!
# Frames over a connection

`TcpWrite` puts a payload behind its length and sends both; `TcpRead` at the other end takes them
apart.  `send` and `recv` transfer as many bytes as they like, so what arrives is the same bytes
in other pieces.

Before it copies the payload, `TcpWrite` clears its string with the size of the string object
instead of the size of the text.  `frames_delivered_iff` says for which payloads that matters.
-/

namespace Rojcpp.Judge

open Rojcpp.Lib

/-! ### Writing -/

/-- What is handed to `TcpWrite`: some bytes, no more than an `int` can count together with the
four bytes of the length. -/
structure Payload where
  bytes : Str
  nonempty : 1 ≤ bytes.length
  short : bytes.length ≤ 2 ^ 31 - 5

/-- `socketBase::writen`, where the `k`-th `send` takes `sends k` bytes or all that are left: the
result, the pieces in which the bytes leave, and the number of calls of `send` so far. -/
def writen (sends : ℕ → ℕ) (k : ℕ) (buffer : Str) : Bool × List Str × ℕ :=
  if buffer = [] then (true, [], k)
  else if sends k = 0 then (false, [], k + 1)
  else
    let r := writen sends (k + 1) (buffer.drop (sends k))
    (r.1, buffer.take (sends k) :: r.2.1, r.2.2)
  termination_by buffer.length
  decreasing_by
    rename_i hne hpos
    have hlen := List.length_pos_iff.mpr hne
    rw [List.length_drop]
    omega

/-- `sizeof(std::string)`. -/
def sizeofString : ℕ := 32

/-- `memset(s.data(), 0, n)`.  The bytes of a string and the terminator behind them may be
written; `none` is a write to other memory. -/
def memsetZero (s : Str) (n : ℕ) : Option Str :=
  if n ≤ s.length + 1 then some (List.replicate (min n s.length) 0 ++ s.drop n) else none

/-- `memcpy(s.data() + off, src, src.length())`. -/
def memcpyAt (s : Str) (off : ℕ) (src : Str) : Str :=
  s.take off ++ src ++ s.drop (off + src.length)

/-- `strTBuffer`, as `TcpWrite` sends it. -/
def frameBuffer (p : Payload) : Option Str := do
  let strTBuffer ← memsetZero (List.replicate (p.bytes.length + 4) 0) sizeofString
  return memcpyAt (memcpyAt strTBuffer 0 (be32 (UInt32.ofNat p.bytes.length))) 4 p.bytes

/-- `socketBase::TcpWrite` on a connection that can be written to; `none` is a write outside the
string. -/
def tcpWrite (sends : ℕ → ℕ) (k : ℕ) (p : Payload) : Option (Bool × List Str × ℕ) :=
  (frameBuffer p).map (writen sends k)

/-- Successive calls of `TcpWrite`: the pieces that leave, if all calls return `true`. -/
def tcpWriteAll (sends : ℕ → ℕ) : ℕ → List Payload → Option (List Str)
  | _, [] => some []
  | k, p :: ps =>
    match tcpWrite sends k p with
    | some (true, chunks, k') => (tcpWriteAll sends k' ps).map fun rest => chunks ++ rest
    | _ => none

/-! ### Reading -/

/-- Successive calls of `TcpRead`: the buffers, if all calls return `true`. -/
def tcpReadAll (closed : Bool) : ℕ → List Str → Option (List Str)
  | 0, _ => some []
  | n + 1, chunks =>
    match tcpRead closed chunks with
    | .returned true buffer _ rest => (tcpReadAll closed n rest).map fun ps => buffer :: ps
    | _ => none

/-- All payloads are written, and in whatever pieces the bytes arrive, they are read again. -/
def Delivered (sends : ℕ → ℕ) (ps : List Payload) : Prop :=
  ∃ sent, tcpWriteAll sends 0 ps = some sent ∧
    ∀ (closed : Bool) (arrived : List Str), arrived.flatten = sent.flatten →
      tcpReadAll closed ps.length arrived = some (ps.map Payload.bytes)

/-! ### What leaves -/

/-- However little each `send` takes, all bytes leave. -/
theorem writen_spec (sends : ℕ → ℕ) (hsends : ∀ k, 0 < sends k) (n : ℕ) :
    ∀ (k : ℕ) (buffer : Str), buffer.length ≤ n →
      ∃ chunks k', writen sends k buffer = (true, chunks, k') ∧ chunks.flatten = buffer := by
  induction n with
  | zero =>
    intro k buffer hlen
    have hnil : buffer = [] := List.length_eq_zero_iff.mp (by omega)
    rw [writen, if_pos hnil, hnil]
    exact ⟨[], k, rfl, rfl⟩
  | succ n ih =>
    intro k buffer hlen
    rw [writen]
    by_cases hnil : buffer = []
    · rw [if_pos hnil, hnil]
      exact ⟨[], k, rfl, rfl⟩
    · have hk := hsends k
      have hpos := List.length_pos_iff.mpr hnil
      obtain ⟨chunks, k', hrest, hflatten⟩ := ih (k + 1) (buffer.drop (sends k))
        (by rw [List.length_drop]; omega)
      rw [if_neg hnil, if_neg (by omega), hrest]
      refine ⟨_, _, rfl, ?_⟩
      rw [List.flatten_cons, hflatten, List.take_append_drop]

/-- The string that is sent, when it is long enough to be cleared. -/
theorem frameBuffer_eq (p : Payload) :
    frameBuffer p = if 27 ≤ p.bytes.length then some (counted p.bytes) else none := by
  have hlen : (List.replicate (p.bytes.length + 4) (0 : UInt8)).length = p.bytes.length + 4 :=
    List.length_replicate
  rw [frameBuffer, memsetZero, hlen]
  by_cases hfit : 27 ≤ p.bytes.length
  · rw [if_pos (by simp only [sizeofString]; omega), if_pos hfit]
    show some _ = some _
    congr 1
    generalize hcleared : List.replicate (min sizeofString (p.bytes.length + 4)) (0 : UInt8) ++
      (List.replicate (p.bytes.length + 4) 0).drop sizeofString = cleared
    have hcount : cleared.length = p.bytes.length + 4 := by
      rw [← hcleared, List.length_append, List.length_replicate, List.length_drop, hlen]
      omega
    rw [memcpyAt, memcpyAt, List.take_zero, List.nil_append, be32_length,
      List.take_left' (be32_length _), counted]
    have hrest : (be32 (UInt32.ofNat p.bytes.length) ++ cleared.drop (0 + 4)).drop
        (4 + p.bytes.length) = [] := by
      apply List.drop_of_length_le
      rw [List.length_append, List.length_drop, be32_length]
      omega
    rw [hrest, List.append_nil]
  · rw [if_neg (by simp only [sizeofString]; omega), if_neg hfit]
    rfl

/-- Payloads that can be cleared leave one behind the other, each with its length. -/
theorem tcpWriteAll_eq (sends : ℕ → ℕ) (hsends : ∀ k, 0 < sends k) (ps : List Payload) :
    (∀ p ∈ ps, 27 ≤ p.bytes.length) → ∀ k, ∃ sent, tcpWriteAll sends k ps = some sent ∧
      sent.flatten = (ps.map fun p => counted p.bytes).flatten := by
  induction ps with
  | nil => exact fun _ k => ⟨[], rfl, rfl⟩
  | cons p ps ih =>
    intro hlong k
    obtain ⟨chunks, k', hwrite, hchunks⟩ :=
      writen_spec sends hsends _ k (counted p.bytes) (le_refl _)
    obtain ⟨sent, hsent, hflatten⟩ := ih (fun q hq => hlong q (List.mem_cons_of_mem p hq)) k'
    refine ⟨chunks ++ sent, ?_, ?_⟩
    · rw [tcpWriteAll, tcpWrite, frameBuffer_eq, if_pos (hlong p (by simp)), Option.map_some,
        hwrite]
      simp only
      rw [hsent]
      rfl
    · rw [List.flatten_append, hchunks, hflatten]
      rfl

/-- A payload that cannot be cleared stops the writing. -/
theorem long_of_tcpWriteAll (sends : ℕ → ℕ) (ps : List Payload) :
    ∀ (k : ℕ) (sent : List Str), tcpWriteAll sends k ps = some sent →
      ∀ p ∈ ps, 27 ≤ p.bytes.length := by
  induction ps with
  | nil => exact fun _ _ _ => nofun
  | cons p ps ih =>
    intro k sent h q hq
    rw [tcpWriteAll, tcpWrite, frameBuffer_eq] at h
    by_cases hlong : 27 ≤ p.bytes.length
    · rw [if_pos hlong] at h
      split at h
      · obtain ⟨rest, hrest, -⟩ := Option.map_eq_some_iff.mp h
        rcases List.mem_cons.mp hq with rfl | hq
        · exact hlong
        · exact ih _ rest hrest q hq
      · cases h
    · rw [if_neg hlong] at h
      cases h

/-! ### What arrives -/

/-- The payloads are read one after the other. -/
theorem tcpReadAll_eq (closed : Bool) (ps : List Payload) : ∀ arrived : List Str,
    arrived.flatten = (ps.map fun p => counted p.bytes).flatten →
    tcpReadAll closed ps.length arrived = some (ps.map Payload.bytes) := by
  induction ps with
  | nil => exact fun _ _ => rfl
  | cons p ps ih =>
    intro arrived h
    have hshort := p.short
    obtain ⟨chunks, hr, hchunks⟩ := tcpRead_counted closed (by omega) h
    rw [List.length_cons, tcpReadAll, hr]
    simp only
    rw [ih chunks hchunks]
    rfl

/-- **Frames arrive as they were written, if they can be cleared.**  For every way `send` and
`recv` cut the bytes, all calls of `TcpWrite` return `true` and the calls of `TcpRead` give back
the payloads in order, if and only if every payload has at least 27 bytes. -/
theorem frames_delivered_iff (sends : ℕ → ℕ) (hsends : ∀ k, 0 < sends k) (ps : List Payload) :
    Delivered sends ps ↔ ∀ p ∈ ps, 27 ≤ p.bytes.length := by
  constructor
  · rintro ⟨sent, hsent, -⟩
    exact long_of_tcpWriteAll sends ps 0 sent hsent
  · intro hlong
    obtain ⟨sent, hsent, hflatten⟩ := tcpWriteAll_eq sends hsends ps hlong 0
    exact ⟨sent, hsent, fun closed arrived h =>
      tcpReadAll_eq closed ps arrived (h.trans hflatten)⟩

/-- Two payloads, sent byte by byte. -/
theorem frames_delivered_bytewise :
    Delivered (fun _ => 1) [⟨List.replicate 27 65, by decide, by decide⟩,
      ⟨List.replicate 30 0, by decide, by decide⟩] :=
  (frames_delivered_iff (fun _ => 1) (fun _ => by decide) _).mpr (by decide)

/-- **A payload of one byte**: the frame has five bytes, and 32 are cleared. -/
theorem frame_overrun : frameBuffer ⟨[65], by decide, by decide⟩ = none ∧
    ¬ Delivered (fun _ => 1) [⟨[65], by decide, by decide⟩] := by
  have hover : frameBuffer ⟨[65], by decide, by decide⟩ = none := by rfl
  refine ⟨hover, ?_⟩
  rintro ⟨sent, hsent, -⟩
  rw [tcpWriteAll, tcpWrite, hover] at hsent
  cases hsent

end Rojcpp.Judge
