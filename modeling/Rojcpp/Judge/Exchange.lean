import Rojcpp.Judge.Connection
import Rojcpp.Judge.MessageRoundTrip
import Rojcpp.Judge.Receive

/-!
# Messages over a connection

Both ends encode a message, put its bytes into a frame, and at the other end take the frame apart
and decode it.  The three steps are composed here: what one end writes with `TcpWrite`, message by
message, is what the receive loop of the other passes on, however the bytes are cut on the way.
-/

namespace Rojcpp.Judge

open Rojcpp.Lib

/-- A payload whose length `TcpWrite` can send, and whose frame it can clear. -/
structure Sendable (bytes : Str) : Prop where
  long : 27 ≤ bytes.length
  short : bytes.length ≤ 2 ^ 31 - 5

/-- The payloads of these messages. -/
def payloads {α : Type} (dumps : α → Str) (msgs : List α) (h : ∀ m ∈ msgs, Sendable (dumps m)) :
    List Payload :=
  msgs.pmap (fun m hm => ⟨dumps m, by have := Sendable.long hm; omega, hm.short⟩) h

theorem payloads_bytes {α : Type} (dumps : α → Str) (msgs : List α)
    (h : ∀ m ∈ msgs, Sendable (dumps m)) : (payloads dumps msgs h).map Payload.bytes =
      msgs.map dumps := by
  rw [payloads, List.map_pmap, List.pmap_eq_map]

theorem payloads_long {α : Type} (dumps : α → Str) (msgs : List α)
    (h : ∀ m ∈ msgs, Sendable (dumps m)) : ∀ p ∈ payloads dumps msgs h, 27 ≤ p.bytes.length := by
  intro p hp
  obtain ⟨m, hm, rfl⟩ := List.mem_pmap.mp hp
  exact (h m hm).long

/-- The messages leave as their frames, one behind the other. -/
theorem payloads_written {α : Type} {dumps : α → Str} {msgs : List α}
    (h : ∀ m ∈ msgs, Sendable (dumps m)) {sends : ℕ → ℕ} (hsends : ∀ k, 0 < sends k) :
    ∃ sent, tcpWriteAll sends 0 (payloads dumps msgs h) = some sent ∧
      sent.flatten = (msgs.map fun m => counted (dumps m)).flatten := by
  obtain ⟨sent, hsent, hflatten⟩ :=
    tcpWriteAll_eq sends hsends (payloads dumps msgs h) (payloads_long dumps msgs h) 0
  have hmap : ((payloads dumps msgs h).map fun p => counted p.bytes) =
      msgs.map fun m => counted (dumps m) := by
    have hbytes := congrArg (List.map counted) (payloads_bytes dumps msgs h)
    rwa [List.map_map, List.map_map] at hbytes
  exact ⟨sent, hsent, by rw [hflatten, hmap]⟩

section

variable {α : Type} {r : Receiver α} {dumps : α → Str} {closed : Bool}

/-- **What was written is what is passed on**, message by message and however the bytes are cut,
when the loop stops behind the last frame. -/
theorem events_counted (hstop : r.checksEnd = true ∨ closed = false)
    (hloads : ∀ m, (dumps m).length < 2 ^ 31 → r.loads (dumps m) = .ok m) (msgs : List α) :
    (∀ m ∈ msgs, Sendable (dumps m)) → ∀ chunks : List Str,
      chunks.flatten = (msgs.map fun m => counted (dumps m)).flatten →
        ∀ k, r.events closed k chunks = (msgs.take k).map fun m => .passed m true := by
  induction msgs with
  | nil =>
    intro _ chunks hchunks k
    have hnil : chunks.flatten = [] := hchunks
    have hround : r.round closed chunks = none := by
      rw [Receiver.round]
      rcases hstop with hstop | hstop
      · rw [if_pos ⟨hstop, hnil⟩]
      · rw [hstop, tcpRead_noLength false chunks (by rw [hnil]; decide)]
        exact ite_self _
    cases k with
    | zero => rfl
    | succ k =>
      rw [Receiver.events, hround]
      rfl
  | cons m msgs ih =>
    intro hsend chunks hchunks k
    have hshort := (hsend m List.mem_cons_self).short
    obtain ⟨rest, hround, hrest⟩ := round_frame r closed chunks (dumps m) _ (by omega) hchunks
    cases k with
    | zero => rfl
    | succ k =>
      rw [Receiver.events, hround, Receiver.decode, hloads m (by omega)]
      exact congrArg _ (ih (fun n hn => hsend n (List.mem_cons_of_mem m hn)) rest hrest k)

end

/-! ### The two kinds of messages -/

/-- The decoder of the client's loop undoes `dumps`. -/
theorem clientReceiver_dumps (m : MessageResultJudge) (hlen : m.dumps.length < 2 ^ 31) :
    clientReceiver.loads m.dumps = .ok m := by
  show (MessageResultJudge.loads m.dumps).map Prod.fst = _
  rw [loads_dumps_result m hlen]
  rfl

/-- The decoder of the server's loop undoes `dumps`. -/
theorem serverReceiver_dumps (m : MessageSendJudge) (hlen : m.dumps.length < 2 ^ 31) :
    serverReceiver.loads m.dumps = .ok m := by
  show (MessageSendJudge.loads m.dumps).map Prod.fst = _
  rw [loads_dumps_send m hlen]
  rfl

theorem sendDumps_length (m : MessageSendJudge) : m.dumps.length =
    24 + (m.key.length + m.code.length + m.language.length + m.pid.length) := by
  simp only [MessageSendJudge.dumps, appendMessge_eq, MessageBuffer.pushBack, List.length_append,
    counted_length, be32_length]
  omega

theorem resultDumps_length (m : MessageResultJudge) : m.dumps.length =
    16 + (m.key.length + m.msg.length) + 32 * m.results.length := by
  simp only [MessageResultJudge.dumps, appendMessge_eq, MessageBuffer.pushBack, List.length_append,
    counted_length, be32_length, flatMap_dumps_length]
  omega

end Rojcpp.Judge
