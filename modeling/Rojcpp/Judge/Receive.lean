import Rojcpp.Judge.MessageBuffer
import Rojcpp.Judge.SocketBase

/-!
# The receive paths

`Server::run` and the receive thread of `Client` both call `TcpRead`, ignore its result, decode
the buffer and pass the message on.  They differ in the message they expect and in that the server
looks at the number of readable bytes first, so it takes the end of the connection as such, while
the client reads on.

`receive_safe_iff` says for which streams nothing goes wrong: every byte belongs to a frame that is
complete and well formed, up to a frame that is still on its way.  Everything else makes the
process look outside the payload, pass on a message that was never sent, or end with an exception.
-/

namespace Rojcpp.Judge

open Rojcpp.Lib

/-- A receive loop: whether it asks for the number of readable bytes first, and its decoder. -/
structure Receiver (α : Type) where
  checksEnd : Bool
  loads : Str → Except Fault α

/-- The receive path of `Server::run`. -/
def serverReceiver : Receiver MessageSendJudge :=
  ⟨true, fun p => (MessageSendJudge.loads p).map Prod.fst⟩

/-- The receive path of the client's thread. -/
def clientReceiver : Receiver MessageResultJudge :=
  ⟨false, fun p => (MessageResultJudge.loads p).map Prod.fst⟩

/-- What one round of a receive loop does: it passes a message on, from a complete frame or not;
it accesses bytes that were not received; or it throws. -/
inductive Event (α : Type) where
  | passed (msg : α) (complete : Bool)
  | outside
  | thrown
  deriving DecidableEq, Repr

/-- The decoding and the passing on. -/
def Receiver.decode {α : Type} (r : Receiver α) (complete : Bool) (received : Str) : Event α :=
  match r.loads received with
  | .ok msg => .passed msg complete
  | .error .outside => .outside
  | .error .lengthError => .thrown

/-- One round: the event and what is left.  `none` is a connection that the loop leaves, or on
which it waits. -/
def Receiver.round {α : Type} (r : Receiver α) (closed : Bool) (chunks : List Str) :
    Option (Event α × List Str) :=
  if r.checksEnd ∧ chunks.flatten = [] then none
  else
    match tcpRead closed chunks with
    | .blocked => none
    | .lengthError => some (.thrown, [])
    | .returned ok buffer received rest => some (r.decode ok (buffer.take received), rest)

/-- The events of the first `k` rounds. -/
def Receiver.events {α : Type} (r : Receiver α) (closed : Bool) : ℕ → List Str → List (Event α)
  | 0, _ => []
  | k + 1, chunks =>
    match r.round closed chunks with
    | none => []
    | some (e, rest) => e :: r.events closed k rest

/-- A message passed on from a complete frame. -/
def Event.Fine {α : Type} (e : Event α) : Prop := ∃ msg, e = .passed msg true

/-- The loop only ever passes on messages from complete frames. -/
def Receiver.Safe {α : Type} (r : Receiver α) (peer : Peer) : Prop :=
  ∀ k, ∀ e ∈ r.events peer.closed k peer.chunks, e.Fine

/-! ### Safe streams -/

/-- A frame of which some bytes are missing, with a length that is not negative. -/
def Incomplete (s : Str) : Prop :=
  s.length < 4 ∨ ∃ v t, readBe32 s = some (v, t) ∧ v.toNat < 2 ^ 31 ∧ t.length < v.toNat

/-- A stream of complete frames with well-formed payloads.  Behind them the connection stays open
in the middle of a frame, or is closed where the receiver looks for its end. -/
inductive StreamOk (wellFormed : Str → Prop) (checksEnd closed : Bool) : Str → Prop
  | frame (payload rest : Str) (hlen : payload.length < 2 ^ 31) (hwell : wellFormed payload)
      (hrest : StreamOk wellFormed checksEnd closed rest) :
      StreamOk wellFormed checksEnd closed (counted payload ++ rest)
  | onItsWay (s : Str) (hopen : closed = false) (hs : Incomplete s) :
      StreamOk wellFormed checksEnd closed s
  | finished (hends : checksEnd = true) : StreamOk wellFormed checksEnd closed []

section Safe

variable {α : Type} (r : Receiver α) (closed : Bool)

/-- The rounds from a state on are all fine. -/
def Receiver.FineFrom (chunks : List Str) : Prop := ∀ k, ∀ e ∈ r.events closed k chunks, e.Fine

/-- One round, and then the others. -/
theorem fineFrom_iff (chunks : List Str) :
    r.FineFrom closed chunks ↔
      ∀ e rest, r.round closed chunks = some (e, rest) → e.Fine ∧ r.FineFrom closed rest := by
  constructor
  · intro h e rest hround
    have hevents : ∀ k, r.events closed (k + 1) chunks = e :: r.events closed k rest := by
      intro k
      rw [Receiver.events, hround]
    refine ⟨h 1 e (by rw [hevents]; exact List.mem_cons_self), fun k e' he' => ?_⟩
    exact h (k + 1) e' (by rw [hevents]; exact List.mem_cons_of_mem _ he')
  · intro h k e he
    cases k with
    | zero => cases he
    | succ k =>
      rw [Receiver.events] at he
      split at he
      · cases he
      · rename_i e' rest hround
        obtain ⟨hfine, hrest⟩ := h e' rest hround
        rcases List.mem_cons.mp he with rfl | he
        · exact hfine
        · exact hrest k e he

/-- A connection the loop does not read from is safe. -/
theorem fineFrom_none (chunks : List Str) (h : r.round closed chunks = none) :
    r.FineFrom closed chunks := by
  rw [fineFrom_iff]
  intro e rest hround
  rw [h] at hround
  cases hround

/-- Nothing read from an incomplete frame is fine. -/
theorem not_fine_decode (received : Str) : ¬ (r.decode false received).Fine := by
  rintro ⟨msg, h⟩
  rw [Receiver.decode] at h
  split at h <;> cases h

/-- What is decoded from a complete frame is fine when it can be decoded. -/
theorem fine_decode_iff (received : Str) :
    (r.decode true received).Fine ↔ ∃ msg, r.loads received = .ok msg := by
  rw [Receiver.decode, Event.Fine]
  cases hl : r.loads received with
  | ok msg => exact ⟨fun _ => ⟨msg, rfl⟩, fun _ => ⟨msg, rfl⟩⟩
  | error f =>
    constructor
    · rintro ⟨msg, h⟩
      cases f <;> cases h
    · rintro ⟨msg, h⟩
      cases h

/-- A round on a closed connection whose next frame is incomplete. -/
theorem round_incomplete (chunks : List Str) (hs : Incomplete chunks.flatten)
    (hend : ¬ (r.checksEnd ∧ chunks.flatten = [])) :
    if closed then
      ∃ received, r.round closed chunks = some (r.decode false received, [])
    else r.round closed chunks = none := by
  rw [Receiver.round, if_neg hend]
  rcases hs with hs | ⟨v, t, hread, hv, ht⟩
  · rw [tcpRead_noLength closed chunks hs]
    cases closed with
    | true => exact ⟨_, rfl⟩
    | false => rfl
  · rw [tcpRead_missing closed hread hv ht]
    cases closed with
    | true => exact ⟨_, rfl⟩
    | false => rfl

/-- A round on a complete frame. -/
theorem round_frame (chunks : List Str) (payload rest : Str) (hlen : payload.length < 2 ^ 31)
    (h : chunks.flatten = counted payload ++ rest) :
    ∃ rest', r.round closed chunks = some (r.decode true payload, rest') ∧
      rest'.flatten = rest := by
  obtain ⟨rest', hr, hrest⟩ := tcpRead_counted closed hlen h
  have hne : chunks.flatten ≠ [] := by
    rw [h]
    simp [counted, be32]
  refine ⟨rest', ?_, hrest⟩
  rw [Receiver.round, if_neg (fun h => hne h.2), hr]
  simp only [List.take_length]

variable {wellFormed : Str → Prop}
  (hwell : ∀ p, p.length < 2 ^ 31 → ((∃ msg, r.loads p = .ok msg) ↔ wellFormed p))

include hwell

/-- On a safe stream every round is fine. -/
theorem fineFrom_of_streamOk {s : Str} (h : StreamOk wellFormed r.checksEnd closed s) :
    ∀ chunks : List Str, chunks.flatten = s → r.FineFrom closed chunks := by
  induction h with
  | frame payload rest hlen hpayload _ ih =>
    intro chunks hchunks
    obtain ⟨rest', hround, hrest⟩ := round_frame r closed chunks payload rest hlen hchunks
    rw [fineFrom_iff]
    intro e rest'' h
    rw [hround] at h
    cases h
    exact ⟨(fine_decode_iff r payload).mpr ((hwell payload hlen).mpr hpayload), ih rest' hrest⟩
  | onItsWay s hopen hs =>
    intro chunks hchunks
    apply fineFrom_none
    by_cases hend : r.checksEnd ∧ chunks.flatten = []
    · rw [Receiver.round, if_pos hend]
    · have h := round_incomplete r closed chunks (hchunks ▸ hs) hend
      rwa [hopen, if_neg (by decide), ← hopen] at h
  | finished hends =>
    intro chunks hchunks
    apply fineFrom_none
    rw [Receiver.round, if_pos ⟨hends, hchunks⟩]

/-- When every round is fine, the stream is safe. -/
theorem streamOk_of_fineFrom (n : ℕ) : ∀ chunks : List Str, chunks.flatten.length < n →
    r.FineFrom closed chunks → StreamOk wellFormed r.checksEnd closed chunks.flatten := by
  induction n with
  | zero =>
    intro chunks hn
    omega
  | succ n ih =>
    intro chunks hn hfine
    rw [fineFrom_iff] at hfine
    by_cases hend : r.checksEnd ∧ chunks.flatten = []
    · rw [hend.2]
      exact .finished hend.1
    -- an incomplete frame is fine only while the connection is open
    have hinc : Incomplete chunks.flatten →
        StreamOk wellFormed r.checksEnd closed chunks.flatten := by
      intro hs
      have h := round_incomplete r closed chunks hs hend
      cases closed with
      | true =>
        obtain ⟨received, h⟩ := h
        exact absurd (hfine _ _ h).1 (not_fine_decode r received)
      | false => exact .onItsWay _ rfl hs
    cases hread : readBe32 chunks.flatten with
    | none => exact hinc (.inl (readBe32_eq_none.mp hread))
    | some q =>
      obtain ⟨v, t⟩ := q
      by_cases hv : v.toNat < 2 ^ 31
      swap
      · have hround : r.round closed chunks = some (.thrown, []) := by
          rw [Receiver.round, if_neg hend, tcpRead_negative closed hread (by omega)]
        obtain ⟨msg, hthrown⟩ := (hfine _ _ hround).1
        cases hthrown
      by_cases ht : t.length < v.toNat
      · exact hinc (.inr ⟨v, t, hread, hv, ht⟩)
      have htake : takeCounted chunks.flatten = some (t.take v.toNat, t.drop v.toNat) := by
        rw [takeCounted, hread]
        simp only
        rw [if_pos (by omega)]
      obtain ⟨hbytes, -⟩ := takeCounted_eq_some.mp htake
      have hlen : (t.take v.toNat).length < 2 ^ 31 := by
        rw [List.length_take]
        omega
      obtain ⟨rest', hround, hrest⟩ := round_frame r closed chunks _ _ hlen hbytes
      obtain ⟨hpayload, hfine'⟩ := hfine _ _ hround
      have hshort : rest'.flatten.length < n := by
        have hcount := congrArg List.length hbytes
        rw [List.length_append, counted_length] at hcount
        rw [hrest]
        omega
      rw [hbytes]
      refine .frame _ _ hlen ((hwell _ hlen).mp ((fine_decode_iff r _).mp hpayload)) ?_
      rw [← hrest]
      exact ih rest' hshort hfine'

/-- A receive loop is safe exactly on the safe streams. -/
theorem safe_iff_streamOk (peer : Peer) :
    r.Safe peer ↔ StreamOk wellFormed r.checksEnd peer.closed peer.bytes := by
  constructor
  · intro h
    exact streamOk_of_fineFrom r peer.closed hwell _ peer.chunks (Nat.lt_succ_self _) h
  · intro h
    exact fineFrom_of_streamOk r peer.closed hwell h peer.chunks rfl

end Safe

theorem map_fst_ok {α β : Type} (x : Except Fault (α × β)) :
    (∃ a, x.map Prod.fst = .ok a) ↔ ∃ m, x = .ok m := by
  cases x with
  | error f =>
    constructor
    · rintro ⟨a, h⟩
      cases h
    · rintro ⟨m, h⟩
      cases h
  | ok m => exact ⟨fun _ => ⟨m, rfl⟩, fun _ => ⟨m.1, rfl⟩⟩

/-- **Which streams are received safely.**  The server and the client touch only received bytes,
pass on only messages from complete frames and throw nothing if and only if the stream consists
of complete frames with well-formed payloads, up to a frame on its way on an open connection; the
server also takes a connection that is closed between two frames, the client never takes one that
is closed. -/
theorem receive_safe_iff (peer : Peer) :
    (serverReceiver.Safe peer ↔ StreamOk WellFormedSend true peer.closed peer.bytes) ∧
      (clientReceiver.Safe peer ↔ StreamOk WellFormedResult false peer.closed peer.bytes) := by
  constructor
  · refine safe_iff_streamOk serverReceiver (fun p hp => ?_) peer
    exact (map_fst_ok _).trans (loads_send_iff p hp)
  · refine safe_iff_streamOk clientReceiver (fun p hp => ?_) peer
    exact (map_fst_ok _).trans (loads_result_iff p hp)

/-- A frame of four bytes that announce a key of `2 ^ 32 - 1` bytes. -/
theorem receive_unsafe :
    ¬ serverReceiver.Safe ⟨[[0, 0, 0, 4, 255, 255, 255, 255]], false⟩ ∧
      ¬ clientReceiver.Safe ⟨[], true⟩ := by
  constructor
  · intro h
    obtain ⟨msg, hmsg⟩ := h 1 .thrown (by decide)
    cases hmsg
  · intro h
    obtain ⟨msg, hmsg⟩ := h 1 .outside (by decide)
    cases hmsg

end Rojcpp.Judge
