import Rojcpp.Judge.FrameStores
import Rojcpp.Lib.System

/-!
# Frames behind a frame that was cut off

`write_message` calls `TcpWrite` and does not look at what it returns.  So when a `send` fails in
the middle of a frame, the messages that follow are written behind what has left of it, and the
receiver takes their first bytes for the rest of the payload it waits for.

A connection is the pieces that its calls have put on it, each with the frame it is a part of.  A
call finds the connection writable or not, and each of its `send`s takes some bytes or fails.
-/

namespace Rojcpp.Judge

open Rojcpp.Lib

/-- The frame, if the stores stay in the memory of the string, which ends with a terminator. -/
def assemble (a : WriteArg) : Option Str :=
  (frameWrites a).bind fun ws =>
    if ws.all (fun w => w.off + w.cells.length ≤ a.frameSize + 1) = true
    then some (window (writeAll (fun _ => 0) ws) 0 a.frameSize) else none

/-- A call of `TcpWrite` through `write_message`: its payload, whether `select` finds the connection
writable, and how many bytes each `send` takes, where a failing one takes none. -/
structure WriteCall where
  arg : WriteArg
  writable : Bool
  sends : ℕ → ℕ

/-- What one call has put on the connection of its frame. -/
structure CallTrace where
  frame : Str
  put : Str
  deriving DecidableEq, Repr

/-- The connection; nothing is known of it any more behind undefined behaviour. -/
structure Wire where
  defined : Bool
  pieces : List CallTrace
  deriving DecidableEq, Repr

/-- `TcpWrite`: what it returns, and the connection afterwards. -/
def tcpWriteCall (s : Wire) (c : WriteCall) : Bool × Wire :=
  if c.writable = true then
    match assemble c.arg with
    | none => (false, { s with defined := false })
    | some frame =>
      let r := writen c.sends 0 frame
      (r.1, { s with pieces := s.pieces ++ [⟨frame, r.2.1.flatten⟩] })
  else (false, s)

/-- Calls of `write_message`, which go on whatever `TcpWrite` has returned. -/
def connection : System Wire WriteCall where
  start := ⟨true, []⟩
  step s c := some (tcpWriteCall s c).2

/-- The bytes on the connection. -/
def Wire.bytes (s : Wire) : Str := (s.pieces.map CallTrace.put).flatten

/-- The pieces that are not empty. -/
def Wire.filled (s : Wire) : List CallTrace := s.pieces.filter fun p => !p.put.isEmpty

/-- The bytes are complete frames and then at most one incomplete frame, behind which there is
nothing. -/
def WellFramed (s : Wire) : Prop :=
  s.defined = true ∧ ∃ whole cut : List CallTrace, s.filled = whole ++ cut ∧
    (∀ p ∈ whole, p.put = p.frame) ∧ cut.length ≤ 1 ∧ (∀ p ∈ cut, p.put <+: p.frame) ∧
    s.bytes = (whole.map CallTrace.frame).flatten ++ (cut.map CallTrace.put).flatten

/-- A call that finds the connection writable has a payload that `TcpWrite` can put together, and if
a frame has been cut off before, its first `send` fails. -/
def Continues (s : Wire) (c : WriteCall) : Prop :=
  c.writable = true → (27 ≤ c.arg.bytes.length ∧ c.arg.bytes.length + 4 < 2 ^ 31) ∧
    ((∃ p ∈ s.pieces, p.put ≠ [] ∧ p.put ≠ p.frame) → c.sends 0 = 0)

/-! ### One call -/

/-- A frame is put together for these payloads. -/
theorem assemble_eq (a : WriteArg) : assemble a =
    if 27 ≤ a.bytes.length ∧ a.bytes.length + 4 < 2 ^ 31 then some (counted a.bytes) else none := by
  rw [assemble]
  by_cases hint : a.frameSize < 2 ^ 31
  · obtain ⟨ws, hws⟩ : ∃ ws, frameWrites a = some ws := ⟨_, if_pos hint⟩
    have hfits : ws.all (fun w => w.off + w.cells.length ≤ a.frameSize + 1) = true ↔
        27 ≤ a.bytes.length := by
      rw [frameWrites, if_pos hint] at hws
      cases hws
      show (decide (0 + 32 ≤ a.bytes.length + 4 + 1) && (decide (0 + 4 ≤ a.bytes.length + 4 + 1) &&
        (decide (4 + a.bytes.length ≤ a.bytes.length + 4 + 1) && true))) = true ↔ _
      simp only [Bool.and_eq_true, decide_eq_true_eq, and_true]
      omega
    rw [hws, Option.bind_some, window_frameWrites a hws]
    by_cases hlong : 27 ≤ a.bytes.length
    · rw [if_pos (hfits.mpr hlong), if_pos ⟨hlong, hint⟩]
    · rw [if_neg (fun h => hlong (hfits.mp h)), if_neg (fun h => hlong h.1)]
  · rw [frameWrites, if_neg hint, if_neg (fun h => hint h.2)]
    rfl

/-- The two ways to put a frame together agree. -/
theorem assemble_payload (p : Payload) :
    assemble ⟨p.bytes, p.nonempty, by have := p.short; omega⟩ = frameBuffer p := by
  have hint : p.bytes.length + 4 < 2 ^ 31 := by
    have hshort := p.short
    omega
  rw [assemble_eq, frameBuffer_eq]
  by_cases hlong : 27 ≤ p.bytes.length
  · rw [if_pos hlong, if_pos ⟨hlong, hint⟩]
  · rw [if_neg hlong, if_neg (fun h => hlong h.1)]

/-- What a call does. -/
inductive CallEffect (s : Wire) (c : WriteCall) : Wire → Prop
  | unwritable : c.writable = false → CallEffect s c s
  | undefined : c.writable = true →
      ¬ (27 ≤ c.arg.bytes.length ∧ c.arg.bytes.length + 4 < 2 ^ 31) →
      CallEffect s c { s with defined := false }
  | wrote {put : Str} : c.writable = true →
      27 ≤ c.arg.bytes.length ∧ c.arg.bytes.length + 4 < 2 ^ 31 →
      put <+: counted c.arg.bytes → (put = [] ↔ c.sends 0 = 0) →
      CallEffect s c { s with pieces := s.pieces ++ [⟨counted c.arg.bytes, put⟩] }

theorem callEffect_of_step {s s' : Wire} {c : WriteCall} (h : connection.step s c = some s') :
    CallEffect s c s' := by
  cases h
  rw [tcpWriteCall, assemble_eq]
  by_cases hw : c.writable = true
  · rw [if_pos hw]
    by_cases hfits : 27 ≤ c.arg.bytes.length ∧ c.arg.bytes.length + 4 < 2 ^ 31
    · rw [if_pos hfits]
      have hne : counted c.arg.bytes ≠ [] := by
        rw [counted]
        exact List.append_ne_nil_of_left_ne_nil (List.cons_ne_nil _ _) _
      obtain ⟨m, hm, hflatten, -, hzero⟩ :=
        writen_taken c.sends _ 0 (counted c.arg.bytes) (le_refl _)
      refine .wrote hw hfits ?_ ?_
      · rw [hflatten]
        exact List.take_prefix _ _
      · rw [hflatten, ← hzero hne, List.take_eq_nil_iff]
        exact or_iff_left hne
    · rw [if_neg hfits]
      exact .undefined hw hfits
  · rw [if_neg hw]
    exact .unwritable (Bool.eq_false_iff.mpr hw)

/-! ### Runs -/

/-- Empty pieces put nothing on the connection. -/
theorem bytes_eq_filled (s : Wire) : s.bytes = (s.filled.map CallTrace.put).flatten := by
  rw [Wire.bytes, Wire.filled]
  induction s.pieces with
  | nil => rfl
  | cons p ps ih =>
    rw [List.map_cons, List.flatten_cons, ih, List.filter_cons]
    cases hput : p.put with
    | nil => rfl
    | cons c t => simp [hput]

/-- The decomposition of the pieces gives the one of the bytes. -/
theorem bytes_of_pieces {s : Wire} {whole cut : List CallTrace} (h : s.filled = whole ++ cut)
    (hwhole : ∀ p ∈ whole, p.put = p.frame) :
    s.bytes = (whole.map CallTrace.frame).flatten ++ (cut.map CallTrace.put).flatten := by
  rw [bytes_eq_filled, h, List.map_append, List.flatten_append, List.map_congr_left hwhole]

theorem wellFramed_step (s : Wire) (c : WriteCall) (s' : Wire) (hs : WellFramed s)
    (hok : Continues s c) (h : connection.step s c = some s') : WellFramed s' := by
  obtain ⟨hdefined, whole, cut, hfilled, hwhole, hlen, hprefix, -⟩ := hs
  cases callEffect_of_step h with
  | unwritable _ =>
    exact ⟨hdefined, whole, cut, hfilled, hwhole, hlen, hprefix, bytes_of_pieces hfilled hwhole⟩
  | undefined hw hfits => exact absurd (hok hw).1 hfits
  | @wrote put hw _ hput hzero =>
    have hstep : Wire.filled { s with pieces := s.pieces ++ [⟨counted c.arg.bytes, put⟩] } =
        s.filled ++ [⟨counted c.arg.bytes, put⟩].filter fun p => !p.put.isEmpty :=
      List.filter_append _ _
    by_cases hempty : put = []
    · have hsame : Wire.filled { s with pieces := s.pieces ++ [⟨counted c.arg.bytes, put⟩] } =
          whole ++ cut := by
        rw [hstep, hempty, ← hfilled]
        exact List.append_nil _
      exact ⟨hdefined, whole, cut, hsame, hwhole, hlen, hprefix, bytes_of_pieces hsame hwhole⟩
    · have hcomplete : ∀ p ∈ whole ++ cut, p.put = p.frame := by
        intro p hp
        rw [← hfilled, Wire.filled, List.mem_filter] at hp
        by_contra hne
        have hfilled : p.put ≠ [] := by simpa using hp.2
        exact hempty (hzero.mpr ((hok hw).2 ⟨p, hp.1, hfilled, hne⟩))
      have hmore : Wire.filled { s with pieces := s.pieces ++ [⟨counted c.arg.bytes, put⟩] } =
          (whole ++ cut) ++ [⟨counted c.arg.bytes, put⟩] := by
        rw [hstep, hfilled]
        simp [hempty]
      refine ⟨hdefined, _, _, hmore, hcomplete, Nat.le_refl 1, ?_, bytes_of_pieces hmore hcomplete⟩
      intro p hp
      rw [List.mem_singleton.mp hp]
      exact hput

theorem not_wellFramed_step (s : Wire) (c : WriteCall) (s' : Wire) (_ : WellFramed s)
    (hok : ¬ Continues s c) (h : connection.step s c = some s') : ¬ WellFramed s' := by
  rw [Continues, Classical.not_imp] at hok
  obtain ⟨hw, hbad⟩ := hok
  cases callEffect_of_step h with
  | unwritable hnot => exact absurd hw (Bool.eq_false_iff.mp hnot)
  | undefined _ _ => exact fun hs' => absurd hs'.1 Bool.false_ne_true
  | @wrote put _ hfits _ hzero =>
    have hcut : (∃ p ∈ s.pieces, p.put ≠ [] ∧ p.put ≠ p.frame) ∧ c.sends 0 ≠ 0 := by
      by_contra hnot
      apply hbad
      refine ⟨hfits, fun hex => ?_⟩
      by_contra hsends
      exact hnot ⟨hex, hsends⟩
    obtain ⟨⟨p, hp, hne, hpart⟩, hsends⟩ := hcut
    have hempty : put ≠ [] := fun hnil => hsends (hzero.mp hnil)
    intro ⟨_, whole, cut, hfilled, hwhole, hlen, _, _⟩
    have hmem : p ∈ s.filled := List.mem_filter.mpr ⟨hp, by simpa using hne⟩
    have hsplit : s.filled ++ [⟨counted c.arg.bytes, put⟩] = whole ++ cut := by
      rw [← hfilled, Wire.filled, Wire.filled, List.filter_append]
      simp [hempty]
    -- the piece that was cut off is not the last one
    have hin : p ∈ whole := by
      cases cut with
      | nil =>
        rw [List.append_nil] at hsplit
        rw [← hsplit]
        exact List.mem_append_left _ hmem
      | cons q rest =>
        have hrest : rest = [] :=
          List.length_eq_zero_iff.mp (Nat.le_zero.mp (Nat.le_of_succ_le_succ hlen))
        rw [hrest] at hsplit
        rw [← (List.append_inj' hsplit rfl).1]
        exact hmem
    exact hpart (hwhole p hin)

/-- **The bytes stay well framed exactly in these runs.**  In every sequence of calls, with every
outcome of `select` and of each `send`, the connection holds complete frames and then at most one
incomplete one throughout, if and only if every call that finds it writable has a payload that can
be put together, and none puts a byte behind a frame that was cut off. -/
theorem well_framed_iff (calls : List WriteCall) :
    connection.Throughout WellFramed connection.start calls ↔
      connection.Meets Continues connection.start calls := by
  obtain ⟨t, ht⟩ := connection.exists_run (fun _ _ => ⟨_, rfl⟩) calls connection.start
  refine System.throughout_iff (fun _ hs => hs) wellFramed_step not_wellFramed_step calls ?_ ht
  exact ⟨rfl, [], [], rfl, List.forall_mem_nil _, Nat.zero_le 1, List.forall_mem_nil _, rfl⟩

/-- The answer to a submission in a language the judge does not know. -/
def refusal : WriteArg where
  bytes := (MessageResultJudge.new (ascii "1000") .invalidConfig
    (ascii "unsupport language : pascal")).dumps
  nonempty := by decide +kernel
  int := by decide +kernel

/-- The first call of `TcpWrite`: the second `send` is interrupted. -/
def interruptedCall : WriteCall := ⟨refusal, true, fun k => if k = 0 then 10 else 0⟩

/-- A call whose `send`s take a hundred bytes at a time. -/
def smoothCall : WriteCall := ⟨refusal, true, fun _ => 100⟩

/-- **Two such answers on one connection**, the first of which is interrupted behind ten bytes: the
second frame stands behind them. -/
theorem frame_behind_cut :
    (connection.run connection.start [interruptedCall, smoothCall]).map Wire.bytes =
        some ((counted refusal.bytes).take 10 ++ counted refusal.bytes) ∧
    ¬ connection.Throughout WellFramed connection.start [interruptedCall, smoothCall] := by
  have hfirst : (tcpWriteCall ⟨true, []⟩ interruptedCall).2 =
      ⟨true, [⟨counted refusal.bytes, (counted refusal.bytes).take 10⟩]⟩ := by decide +kernel
  constructor
  · decide +kernel
  · rw [System.throughout_cons (t := (tcpWriteCall ⟨true, []⟩ interruptedCall).2) rfl, hfirst,
      System.throughout_cons rfl]
    intro ⟨_, hwell, hrest⟩
    refine not_wellFramed_step _ smoothCall _ hwell (fun hok => ?_) rfl (hrest [] [] _ rfl rfl)
    have hcut : ∃ p ∈ [(⟨counted refusal.bytes, (counted refusal.bytes).take 10⟩ : CallTrace)],
        p.put ≠ [] ∧ p.put ≠ p.frame := ⟨_, List.mem_singleton_self _, by decide +kernel⟩
    exact absurd ((hok rfl).2 hcut) (by decide)

end Rojcpp.Judge
