import Rojcpp.Judge.MessageBuffer
import Rojcpp.Lib.System

/-!
# The receive thread of the judge client

One connection of `Client` and the thread that reads it.  `epoll` is edge triggered: an arrival
raises the event of the connection, and `epoll_wait` reports it once and clears it, whether or not
the socket buffer is read empty afterwards.  For each report the thread runs one `TcpRead`, which
takes the four bytes of the length and then the payload with as many calls of `recv` as it needs,
and hands the payload on.  A length that is negative as an `int` makes `resize` throw, which ends
the thread.

A burst of frames that is reported once leaves all frames but the first in the buffer.
`frames_handled` is about the runs in which every report finds at most one complete frame, and
`report_strands` shows that any other report can leave a frame behind.
-/

namespace Rojcpp.Judge

open Rojcpp.Lib

/-- What the receive thread is doing: waiting for an event, reading a frame of which `got` has
been read, or gone. -/
inductive ClientPhase where
  | waiting
  | reading (got : Str)
  | crashed
  deriving DecidableEq, Repr

/-- The connection and the thread.  `arrived` keeps all bytes that ever arrived. -/
structure ClientState where
  unread : Str
  event : Bool
  phase : ClientPhase
  handled : List Str
  arrived : Str
  deriving DecidableEq, Repr

/-- The steps: bytes arrive, `epoll_wait` returns, `recv` returns `n` bytes. -/
inductive ClientAction where
  | arrive (bytes : Str)
  | epollWait
  | recv (n : ℕ)
  deriving DecidableEq, Repr

/-- The number of bytes `TcpRead` asks `recv` for when it has `got`. -/
def wanted (got : Str) : ℕ :=
  match readBe32 got with
  | none => 4 - got.length
  | some (v, t) => v.toNat - t.length

/-- What becomes of a frame of which `got` has been read: the phase, and the payload when it is
complete. -/
def frameProgress (got : Str) : ClientPhase × List Str :=
  match readBe32 got with
  | none => (.reading got, [])
  | some (v, t) =>
    if 2 ^ 31 ≤ v.toNat then (.crashed, [])
    else if v.toNat = t.length then (.waiting, [t])
    else (.reading got, [])

/-- One step of the client. -/
def clientStep (s : ClientState) : ClientAction → Option ClientState
  | .arrive bytes =>
    if bytes = [] then none
    else some { s with
      unread := s.unread ++ bytes
      event := true
      arrived := s.arrived ++ bytes }
  | .epollWait =>
    if s.phase = .waiting ∧ s.event = true then
      some { s with
        event := false
        phase := if s.unread = [] then .waiting else .reading [] }
    else none
  | .recv n =>
    match s.phase with
    | .reading got =>
      if 0 < n ∧ n ≤ wanted got ∧ n ≤ s.unread.length then
        let r := frameProgress (got ++ s.unread.take n)
        some { s with
          unread := s.unread.drop n
          phase := r.1
          handled := s.handled ++ r.2 }
      else none
    | _ => none

/-- The client on a fresh connection. -/
def client : System ClientState ClientAction := ⟨⟨[], false, .waiting, [], []⟩, clientStep⟩

/-- The bytes hold at most one complete frame. -/
def AtMostOneFrame (s : Str) : Prop :=
  ∀ payload rest, takeCounted s = some (payload, rest) → takeCounted rest = none

instance (s : Str) : Decidable (AtMostOneFrame s) :=
  decidable_of_iff (∀ frame ∈ takeCounted s, takeCounted frame.2 = none)
    ⟨fun h p r hp => h (p, r) hp, fun h frame hframe => h frame.1 frame.2 hframe⟩

/-- Every report of `epoll_wait` finds at most one complete frame in the buffer. -/
def OneFrameReported (s : ClientState) (a : ClientAction) : Prop :=
  a = .epollWait → AtMostOneFrame s.unread

instance (s : ClientState) (a : ClientAction) : Decidable (OneFrameReported s a) :=
  inferInstanceAs (Decidable (_ → _))

/-- A thread that waits without an event has handed on every complete frame that arrived: none is
left in the buffer, and the frames handed on are those that arrived, in order. -/
def FramesHandled (s : ClientState) : Prop :=
  s.phase = .waiting → s.event = false →
    takeCounted s.unread = none ∧ s.arrived = s.handled.flatMap counted ++ s.unread

/-- The bytes of the frame being read that have left the buffer. -/
def gotten (s : ClientState) : Str :=
  match s.phase with
  | .reading got => got
  | _ => []

/-! ### The invariant -/

/-- The invariant of the receive thread. -/
structure ClientInv (s : ClientState) : Prop where
  arrived : s.phase ≠ .crashed → s.arrived = s.handled.flatMap counted ++ (gotten s ++ s.unread)
  waiting : s.phase = .waiting → s.event = false → takeCounted s.unread = none
  reading : ∀ got, s.phase = .reading got → s.event = false → AtMostOneFrame (got ++ s.unread)

/-- A frame that is complete is the counted payload. -/
theorem frameProgress_waiting {got : Str} {ps : List Str}
    (h : frameProgress got = (.waiting, ps)) :
    ∃ p, ps = [p] ∧ got = counted p ∧ p.length < 2 ^ 32 := by
  rw [frameProgress] at h
  split at h
  · cases h
  rename_i v t hread
  split at h
  · cases h
  split at h
  · rename_i hlen
    cases h
    refine ⟨t, rfl, ?_, by rw [← hlen]; exact v.toNat_lt⟩
    rw [counted, ← hlen, UInt32.ofNat_toNat]
    exact readBe32_eq_some.mp hread
  · cases h

/-- A frame that is not complete stays as it is. -/
theorem frameProgress_reading {got got' : Str} {ps : List Str}
    (h : frameProgress got = (.reading got', ps)) : got' = got ∧ ps = [] := by
  rw [frameProgress] at h
  split at h
  · cases h
    exact ⟨rfl, rfl⟩
  split at h
  · cases h
  split at h
  · cases h
  · cases h
    exact ⟨rfl, rfl⟩

theorem clientInv_start : ClientInv client.start where
  arrived := fun _ => rfl
  waiting := fun _ _ => rfl
  reading := by
    intro got h
    cases h

/-- A report keeps the invariant when it finds at most one complete frame. -/
theorem clientInv_epollWait {s s' : ClientState} (hs : ClientInv s)
    (hone : AtMostOneFrame s.unread) (h : clientStep s .epollWait = some s') : ClientInv s' := by
  simp only [clientStep, Option.ite_none_right_eq_some, Option.some.injEq] at h
  obtain ⟨⟨hwait, -⟩, rfl⟩ := h
  have harr := hs.arrived (by simp [hwait])
  simp only [gotten, hwait, List.nil_append] at harr
  by_cases hempty : s.unread = []
  · rw [if_pos hempty]
    refine ⟨fun _ => harr, fun _ _ => ?_, fun got hgot => ?_⟩
    · show takeCounted s.unread = none
      rw [hempty]
      rfl
    · cases hgot
  · rw [if_neg hempty]
    refine ⟨fun _ => harr, fun hgot => ?_, fun got hgot _ => ?_⟩
    · cases hgot
    · cases hgot
      exact hone

/-- Reading keeps the invariant: the frame read last was the only complete one, unless something
arrived meanwhile. -/
theorem clientInv_recv {s s' : ClientState} {n : ℕ} (hs : ClientInv s)
    (h : clientStep s (.recv n) = some s') : ClientInv s' := by
  simp only [clientStep] at h
  split at h
  swap
  · cases h
  rename_i got hgot
  simp only [Option.ite_none_right_eq_some, Option.some.injEq] at h
  obtain ⟨-, rfl⟩ := h
  have hsplit : got ++ s.unread.take n ++ s.unread.drop n = got ++ s.unread := by
    rw [List.append_assoc, List.take_append_drop]
  have harr := hs.arrived (by simp [hgot])
  simp only [gotten, hgot] at harr
  rcases hprog : frameProgress (got ++ s.unread.take n) with ⟨phase, ps⟩
  cases phase with
  | waiting =>
    obtain ⟨p, rfl, hp, hlen⟩ := frameProgress_waiting hprog
    refine ⟨fun _ => ?_, fun _ hev => ?_, fun got' h => ?_⟩
    · show s.arrived = (s.handled ++ [p]).flatMap counted ++ s.unread.drop n
      rw [harr, ← hsplit, hp, List.flatMap_append, List.append_assoc]
      simp
    · have hone := hs.reading got hgot hev
      rw [← hsplit, hp] at hone
      exact hone p _ (takeCounted_counted p _ hlen)
    · cases h
  | reading got' =>
    obtain ⟨rfl, rfl⟩ := frameProgress_reading hprog
    refine ⟨fun _ => ?_, fun h => ?_, fun got'' h hev => ?_⟩
    · show s.arrived = (s.handled ++ []).flatMap counted ++
        (got ++ s.unread.take n ++ s.unread.drop n)
      rw [harr, hsplit, List.append_nil]
    · cases h
    · cases h
      show AtMostOneFrame (got ++ s.unread.take n ++ s.unread.drop n)
      rw [hsplit]
      exact hs.reading got hgot hev
  | crashed =>
    refine ⟨fun h => absurd rfl h, fun h => ?_, fun got' h => ?_⟩
    · cases h
    · cases h

/-- Arrivals keep the invariant, since they raise the event. -/
theorem clientInv_arrive {s s' : ClientState} {bytes : Str} (hs : ClientInv s)
    (h : clientStep s (.arrive bytes) = some s') : ClientInv s' := by
  simp only [clientStep, Option.ite_none_left_eq_some, Option.some.injEq] at h
  obtain ⟨-, rfl⟩ := h
  refine ⟨fun hphase => ?_, fun _ hev => ?_, fun got _ hev => ?_⟩
  · show s.arrived ++ bytes = s.handled.flatMap counted ++ (gotten s ++ (s.unread ++ bytes))
    rw [hs.arrived hphase, List.append_assoc, List.append_assoc]
  · cases hev
  · cases hev

/-- One step keeps the invariant. -/
theorem clientInv_step {s s' : ClientState} {a : ClientAction} (hs : ClientInv s)
    (hone : OneFrameReported s a) (h : clientStep s a = some s') : ClientInv s' := by
  cases a with
  | arrive bytes => exact clientInv_arrive hs h
  | epollWait => exact clientInv_epollWait hs (hone rfl) h
  | recv n => exact clientInv_recv hs h

/-- **No frame is left behind.**  In every run in which each report finds at most one complete
frame in the buffer, a thread that waits without an event has handed on every complete frame. -/
theorem frames_handled (s : ClientState) (hs : client.Reachable OneFrameReported s) :
    FramesHandled s := by
  have hinv : ClientInv s := System.Reachable.invariant ClientInv clientInv_start
    (fun s a s' hinv hok hstep => clientInv_step hinv hok hstep) hs
  intro hwait hev
  have harr := hinv.arrived (by simp [hwait])
  simp only [gotten, hwait, List.nil_append] at harr
  exact ⟨hinv.waiting hwait hev, harr⟩

/-- After the four bytes of its length, a frame is complete when it is empty. -/
theorem frameProgress_length (p : Str) (hp : p.length < 2 ^ 31) :
    frameProgress (be32 (UInt32.ofNat p.length)) =
      if p = [] then (.waiting, [[]]) else (.reading (be32 (UInt32.ofNat p.length)), []) := by
  have hlen : (UInt32.ofNat p.length).toNat = p.length := length_toNat (by omega)
  rw [frameProgress, readBe32_self]
  simp only [hlen, List.length_nil, List.length_eq_zero_iff]
  rw [if_neg (by omega)]

/-- A whole frame is complete. -/
theorem frameProgress_counted (p : Str) (hp : p.length < 2 ^ 31) :
    frameProgress (counted p) = (.waiting, [p]) := by
  have hlen : (UInt32.ofNat p.length).toNat = p.length := length_toNat (by omega)
  rw [frameProgress, counted, readBe32_be32]
  simp only [hlen, if_true]
  rw [if_neg (by omega)]

/-- A frame at the front of the buffer is read in at most two calls of `recv`. -/
theorem read_frame (s : ClientState) (p r : Str) (hphase : s.phase = .reading [])
    (hp : p.length < 2 ^ 31) (hunread : s.unread = counted p ++ r) :
    ∃ as, client.run s as =
      some { s with unread := r, phase := .waiting, handled := s.handled ++ [p] } := by
  have hlen : (UInt32.ofNat p.length).toNat = p.length := length_toNat (by omega)
  have hsplit : s.unread = be32 (UInt32.ofNat p.length) ++ (p ++ r) := by
    rw [hunread, counted, List.append_assoc]
  -- the four bytes of the length
  have hfour : clientStep s (.recv 4) = some { s with
      unread := p ++ r
      phase := (frameProgress (be32 (UInt32.ofNat p.length))).1
      handled := s.handled ++ (frameProgress (be32 (UInt32.ofNat p.length))).2 } := by
    rw [clientStep, hphase]
    simp only
    rw [if_pos ⟨by omega, by decide, by rw [hsplit]; simp⟩, hsplit]
    rfl
  rw [frameProgress_length p hp] at hfour
  by_cases hempty : p = []
  · subst hempty
    refine ⟨[.recv 4], ?_⟩
    show (clientStep s (.recv 4)).bind _ = _
    rw [hfour]
    rfl
  · rw [if_neg hempty] at hfour
    -- the payload
    let t : ClientState := { s with
      unread := p ++ r
      phase := .reading (be32 (UInt32.ofNat p.length))
      handled := s.handled ++ [] }
    have hwanted : wanted (be32 (UInt32.ofNat p.length)) = p.length := by
      rw [wanted, readBe32_self]
      simp [hlen]
    have hgot : be32 (UInt32.ofNat p.length) ++ (p ++ r).take p.length = counted p := by
      rw [List.take_left, counted]
    have hpayload : clientStep t (.recv p.length) = some { t with
        unread := (p ++ r).drop p.length
        phase := (frameProgress (be32 (UInt32.ofNat p.length) ++ (p ++ r).take p.length)).1
        handled := t.handled ++
          (frameProgress (be32 (UInt32.ofNat p.length) ++ (p ++ r).take p.length)).2 } := by
      simp only [clientStep, t]
      rw [if_pos ⟨List.length_pos_iff.mpr hempty, by rw [hwanted], by simp⟩]
    rw [hgot, frameProgress_counted p hp, List.drop_left] at hpayload
    refine ⟨[.recv 4, .recv p.length], ?_⟩
    show (clientStep s (.recv 4)).bind _ = _
    rw [hfour]
    show (clientStep t (.recv p.length)).bind _ = _
    rw [hpayload]
    show some _ = some _
    simp only [t, List.append_nil]

/-- **A report of two frames strands the second.**  If nothing arrives while the first frame is
read, the thread waits without an event and the second frame is in the buffer. -/
theorem report_strands (s : ClientState) (hwait : s.phase = .waiting) (hev : s.event = true)
    (p r : Str) (hp : p.length < 2 ^ 31) (hunread : takeCounted s.unread = some (p, r))
    (hr : takeCounted r ≠ none) : ∃ as s', client.run s as = some s' ∧ ¬ FramesHandled s' := by
  obtain ⟨hs, -⟩ := takeCounted_eq_some.mp hunread
  have hne : s.unread ≠ [] := by
    rw [hs]
    simp [counted, be32]
  let t : ClientState := { s with event := false, phase := .reading [] }
  have hreport : clientStep s .epollWait = some t := by
    rw [clientStep, if_pos ⟨hwait, hev⟩, if_neg hne]
  obtain ⟨as, has⟩ := read_frame t p r rfl hp hs
  refine ⟨.epollWait :: as, { t with unread := r, phase := .waiting, handled := t.handled ++ [p] },
    ?_, ?_⟩
  · show (clientStep s .epollWait).bind _ = _
    rw [hreport]
    exact has
  · intro h
    exact hr (h rfl rfl).1

/-! ### Two runs -/

/-- The two replies of the judge server to a submission for a problem without tests. -/
def sizeOfNone : Str :=
  (MessageResultJudge.new (ascii "12345678") .success (ascii "allSize:0")).dumps

def allOfNone : Str := (MessageResultJudge.new (ascii "12345678") .success (ascii "ALL")).dumps

/-- The second frame arrives while the first is read. -/
theorem frames_handled_example : ∃ s,
    client.run client.start [.arrive (counted sizeOfNone), .epollWait,
      .arrive (counted allOfNone), .recv 4, .recv 33, .epollWait, .recv 4, .recv 27] = some s ∧
    s.handled = [sizeOfNone, allOfNone] ∧ s.phase = .waiting ∧ FramesHandled s := by
  have hmeets : client.Meets OneFrameReported client.start
      [.arrive (counted sizeOfNone), .epollWait, .arrive (counted allOfNone), .recv 4, .recv 33,
        .epollWait, .recv 4, .recv 27] := by decide
  exact ⟨_, rfl, rfl, rfl, frames_handled _ (System.Reachable.run .start _ hmeets rfl)⟩

/-- Two frames arrive before one wait: the second is left in the buffer and no event tells. -/
theorem frame_left_behind : ∃ s, client.Reachable System.anyStep s ∧
    s.phase = .waiting ∧ s.event = false ∧ s.handled = [sizeOfNone] ∧
    s.arrived = counted sizeOfNone ++ counted allOfNone ∧ ¬ FramesHandled s := by
  refine ⟨⟨counted allOfNone, false, .waiting, [sizeOfNone],
      counted sizeOfNone ++ counted allOfNone⟩,
    System.Reachable.run .start [.arrive (counted sizeOfNone ++ counted allOfNone), .epollWait,
      .recv 4, .recv 33] (System.meets_anyStep _ _) rfl, rfl, rfl, rfl, rfl, fun h => ?_⟩
  have hnone := (h rfl rfl).1
  revert hnone
  decide

end Rojcpp.Judge
