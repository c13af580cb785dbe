import Rojcpp.Cpp.Text
import Rojcpp.Lib.Framing

/-!
# Reading frames from a socket

What the other end sends is a list of chunks, each the most a single `recv` returns, and the
information whether it closes the connection behind them.  `readn` and `TcpRead` follow the source,
and `readn_done` and `readn_short` show that only the bytes matter, not how they are cut.

A read that waits for bytes on an open connection is `blocked`.  `TcpRead` makes room for the
payload before it reads, so a connection that closes early leaves zeros behind the bytes that were
received; it says so in its result only.
-/

namespace Rojcpp.Judge

open Rojcpp.Lib

/-- What the other end of a connection sends. -/
structure Peer where
  chunks : List Str
  closed : Bool
  deriving DecidableEq, Repr

/-- All bytes a peer sends. -/
def Peer.bytes (p : Peer) : Str := p.chunks.flatten

/-- How `readn` ends: with all bytes and what is left, with too few, or not at all. -/
inductive ReadN where
  | done (got : Str) (rest : List Str)
  | short (got : Str)
  | blocked
  deriving DecidableEq, Repr

/-- Bytes read before the others. -/
def ReadN.prepend (c : Str) : ReadN → ReadN
  | .done got rest => .done (c ++ got) rest
  | .short got => .short (c ++ got)
  | .blocked => .blocked

/-- `socketBase::readn` for `n` bytes. -/
def readn (closed : Bool) : ℕ → List Str → ReadN
  | 0, cs => .done [] cs
  | _ + 1, [] => if closed then .short [] else .blocked
  | n + 1, c :: cs =>
    if n + 1 ≤ c.length then .done (c.take (n + 1)) (c.drop (n + 1) :: cs)
    else (readn closed (n + 1 - c.length) cs).prepend c
  termination_by structural _ cs => cs

/-- How `socketBase::TcpRead` ends: it waits, it throws because the length is negative, or it
returns a result with the buffer, the number of bytes of the buffer that were received, and what
is left. -/
inductive TcpResult where
  | blocked
  | lengthError
  | returned (ok : Bool) (buffer : Str) (received : ℕ) (rest : List Str)
  deriving DecidableEq, Repr

/-- `socketBase::TcpRead` without a timeout. -/
def tcpRead (closed : Bool) (chunks : List Str) : TcpResult :=
  match readn closed 4 chunks with
  | .blocked => .blocked
  | .short _ => .returned false [] 0 []
  | .done got rest =>
    match readBe32 got with
    | none => .blocked
    | some (v, _) =>
      if v.toInt32.toInt < 0 then .lengthError
      else
        match readn closed v.toInt32.toInt.toNat rest with
        | .blocked => .blocked
        | .short got => .returned false
            (got ++ List.replicate (v.toInt32.toInt.toNat - got.length) 0) got.length []
        | .done got rest => .returned true got got.length rest

/-! ### Only the bytes matter -/

theorem readn_done (closed : Bool) (cs : List Str) : ∀ n, n ≤ cs.flatten.length →
    ∃ rest, readn closed n cs = .done (cs.flatten.take n) rest ∧
      rest.flatten = cs.flatten.drop n := by
  induction cs with
  | nil =>
    intro n hn
    have hn' : n = 0 := by simpa using hn
    subst hn'
    exact ⟨[], rfl, rfl⟩
  | cons c cs ih =>
    intro n hn
    cases n with
    | zero => exact ⟨c :: cs, by simp [readn], by simp⟩
    | succ n =>
      rw [List.flatten_cons] at hn ⊢
      rw [readn]
      by_cases hc : n + 1 ≤ c.length
      · refine ⟨c.drop (n + 1) :: cs, ?_, ?_⟩
        · rw [if_pos hc, List.take_append_of_le_length hc]
        · rw [List.flatten_cons, List.drop_append_of_le_length hc]
      · rw [List.length_append] at hn
        obtain ⟨rest, hr, hrest⟩ := ih (n + 1 - c.length) (by omega)
        refine ⟨rest, ?_, ?_⟩
        · rw [if_neg hc, hr, ReadN.prepend, List.take_append,
            List.take_of_length_le (show c.length ≤ n + 1 by omega)]
        · rw [hrest, List.drop_append, List.drop_of_length_le (show c.length ≤ n + 1 by omega),
            List.nil_append]

theorem readn_short (closed : Bool) (cs : List Str) : ∀ n, cs.flatten.length < n →
    readn closed n cs = if closed then .short cs.flatten else .blocked := by
  induction cs with
  | nil =>
    intro n hn
    cases n with
    | zero => omega
    | succ n => rw [readn]; rfl
  | cons c cs ih =>
    intro n hn
    cases n with
    | zero => omega
    | succ n =>
      rw [List.flatten_cons, List.length_append] at hn
      rw [readn, if_neg (by omega), ih _ (by omega), List.flatten_cons]
      cases closed <;> rfl

/-! ### Frames -/

/-- The `int` of a length that is not negative. -/
theorem length_toInt (v : UInt32) (hv : v.toNat < 2 ^ 31) : v.toInt32.toInt = v.toNat := by
  rw [show v.toInt32 = Int32.ofNat v.toNat by rw [← UInt32.toInt32_ofNat', UInt32.ofNat_toNat]]
  exact Int32.toInt_ofNat_of_lt hv

/-- The `int` of a length with the top bit set. -/
theorem length_toInt_neg (v : UInt32) (hv : 2 ^ 31 ≤ v.toNat) : v.toInt32.toInt < 0 := by
  have hlt := v.toNat_lt
  rw [show v.toInt32 = Int32.ofNat v.toNat by rw [← UInt32.toInt32_ofNat', UInt32.ofNat_toNat],
    Int32.toInt_ofNat', show Int32.size = 2 ^ 32 from rfl, Int.bmod_def]
  split <;> omega

/-- A connection with too few bytes for a length. -/
theorem tcpRead_noLength (closed : Bool) (chunks : List Str) (h : chunks.flatten.length < 4) :
    tcpRead closed chunks = if closed then .returned false [] 0 [] else .blocked := by
  rw [tcpRead, readn_short closed chunks 4 h]
  cases closed <;> rfl

section Length

variable (closed : Bool) {chunks : List Str} {v : UInt32} {t : Str}

/-- The length at the front of the connection. -/
theorem readn_length (h : readBe32 chunks.flatten = some (v, t)) :
    ∃ rest, readn closed 4 chunks = .done (be32 v) rest ∧ rest.flatten = t := by
  have hbytes := readBe32_eq_some.mp h
  have hlen : 4 ≤ chunks.flatten.length := by
    rw [hbytes, List.length_append, be32_length]
    omega
  obtain ⟨rest, hr, hrest⟩ := readn_done closed chunks 4 hlen
  rw [hbytes, List.take_left' (be32_length v)] at hr
  rw [hbytes, List.drop_left' (be32_length v)] at hrest
  exact ⟨rest, hr, hrest⟩

/-- A negative length throws. -/
theorem tcpRead_negative (h : readBe32 chunks.flatten = some (v, t)) (hv : 2 ^ 31 ≤ v.toNat) :
    tcpRead closed chunks = .lengthError := by
  obtain ⟨rest, hr, -⟩ := readn_length closed h
  rw [tcpRead, hr]
  simp only [readBe32_self]
  rw [if_pos (length_toInt_neg v hv)]

/-- A payload that is not there. -/
theorem tcpRead_missing (h : readBe32 chunks.flatten = some (v, t)) (hv : v.toNat < 2 ^ 31)
    (ht : t.length < v.toNat) :
    tcpRead closed chunks =
      if closed then .returned false (t ++ List.replicate (v.toNat - t.length) 0) t.length []
      else .blocked := by
  obtain ⟨rest, hr, hrest⟩ := readn_length closed h
  have hv' := length_toInt v hv
  rw [tcpRead, hr]
  simp only [readBe32_self, hv', Int.toNat_natCast]
  rw [if_neg (by omega), readn_short closed rest _ (by rw [hrest]; exact ht), hrest]
  cases closed <;> rfl

/-- A payload that is there. -/
theorem tcpRead_frame (h : readBe32 chunks.flatten = some (v, t)) (hv : v.toNat < 2 ^ 31)
    (ht : v.toNat ≤ t.length) :
    ∃ rest, tcpRead closed chunks =
        .returned true (t.take v.toNat) (t.take v.toNat).length rest ∧
      rest.flatten = t.drop v.toNat := by
  obtain ⟨rest, hr, hrest⟩ := readn_length closed h
  have hv' := length_toInt v hv
  obtain ⟨rest', hr', hrest'⟩ := readn_done closed rest v.toNat (by rw [hrest]; exact ht)
  rw [hrest] at hr' hrest'
  refine ⟨rest', ?_, hrest'⟩
  rw [tcpRead, hr]
  simp only [readBe32_self, hv', Int.toNat_natCast]
  rw [if_neg (by omega), hr']

end Length

/-- **A whole frame** is read as its payload. -/
theorem tcpRead_counted (closed : Bool) {chunks : List Str} {payload t : Str}
    (hlen : payload.length < 2 ^ 31) (h : chunks.flatten = counted payload ++ t) :
    ∃ rest, tcpRead closed chunks = .returned true payload payload.length rest ∧
      rest.flatten = t := by
  have hnat : (UInt32.ofNat payload.length).toNat = payload.length := length_toNat (by omega)
  have hread : readBe32 chunks.flatten = some (UInt32.ofNat payload.length, payload ++ t) := by
    rw [h, counted, List.append_assoc, readBe32_be32]
  obtain ⟨rest, hr, hrest⟩ := tcpRead_frame closed hread (by omega)
    (by rw [hnat, List.length_append]; omega)
  rw [hnat, List.take_left] at hr
  rw [hnat, List.drop_left] at hrest
  exact ⟨rest, hr, hrest⟩

end Rojcpp.Judge
