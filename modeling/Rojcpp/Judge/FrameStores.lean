import Rojcpp.Judge.Connection
import Rojcpp.Judge.MessageBuffer
import Rojcpp.Lib.Memory

/-!
# Where `TcpWrite` writes while it puts a frame together

`TcpWrite` resizes a string to the payload's length and four more, clears it, and copies the length
and the payload into it; then it sends those bytes.  The clearing takes its size from the string
object, which has 32 bytes whatever the text.

Here the string is a block of memory and the three copies are stores in it, so that a store may go
past the end.  `stores_inside_iff` says for which payloads none does.
-/

namespace Rojcpp.Judge

open Rojcpp.Lib

/-- The arguments of a call with at least one byte: `ibuflen` is an `int`. -/
structure WriteArg where
  bytes : Str
  nonempty : 1 ≤ bytes.length
  int : bytes.length < 2 ^ 31

/-- The size of the frame. -/
def WriteArg.frameSize (a : WriteArg) : ℕ := a.bytes.length + 4

/-- The stores of `TcpWrite` at the string's data: `memset`, and `memcpy` of the length and of the
payload.  The sum `ilen+4` has to be an `int`. -/
def frameWrites (a : WriteArg) : Option (List (Write UInt8)) :=
  if a.frameSize < 2 ^ 31 then
    some [⟨0, List.replicate sizeofString 0⟩, ⟨0, be32 (UInt32.ofNat a.bytes.length)⟩,
      ⟨4, a.bytes⟩]
  else none

/-- The bytes that leave when the stores have been made and the `k`-th `send` takes `sends k`. -/
def sentBytes (mem : ℕ → UInt8) (ws : List (Write UInt8)) (a : WriteArg) (sends : ℕ → ℕ) : Str :=
  (writen sends 0 (window (writeAll mem ws) 0 a.frameSize)).2.1.flatten

/-- Every store has an index below the size of the frame, and every byte that is sent has been
stored by one of them. -/
def StoresInside (a : WriteArg) : Prop :=
  ∃ ws, frameWrites a = some ws ∧ (∀ w ∈ ws, w.Below a.frameSize) ∧
    ∀ mem sends, ∃ m ≤ a.frameSize,
      sentBytes mem ws a sends = window (writeAll mem ws) 0 m ∧ ∀ i < m, ∃ w ∈ ws, w.Covers i

/-! ### What is sent -/

/-- `writen` sends the front part of what it is given, the whole of it exactly if it returns `true`,
and nothing exactly if the first `send` fails. -/
theorem writen_taken (sends : ℕ → ℕ) (n : ℕ) : ∀ (k : ℕ) (buffer : Str), buffer.length ≤ n →
    ∃ m ≤ buffer.length, (writen sends k buffer).2.1.flatten = buffer.take m ∧
      ((writen sends k buffer).1 = true ↔ m = buffer.length) ∧
      (buffer ≠ [] → (m = 0 ↔ sends k = 0)) := by
  induction n with
  | zero =>
    intro k buffer hlen
    have hnil : buffer = [] := List.length_eq_zero_iff.mp (by omega)
    rw [writen, if_pos hnil, hnil]
    exact ⟨0, le_refl _, rfl, iff_of_true rfl rfl, fun h => absurd rfl h⟩
  | succ n ih =>
    intro k buffer hlen
    rw [writen]
    by_cases hnil : buffer = []
    · rw [if_pos hnil, hnil]
      exact ⟨0, le_refl _, rfl, iff_of_true rfl rfl, fun h => absurd rfl h⟩
    · have hpos := List.length_pos_iff.mpr hnil
      rw [if_neg hnil]
      by_cases hzero : sends k = 0
      · rw [if_pos hzero]
        exact ⟨0, Nat.zero_le _, rfl, iff_of_false Bool.false_ne_true (by omega),
          fun _ => iff_of_true rfl hzero⟩
      · rw [if_neg hzero]
        have hdrop : (buffer.drop (sends k)).length = buffer.length - sends k := List.length_drop
        obtain ⟨m, hm, hflatten, htrue, -⟩ := ih (k + 1) (buffer.drop (sends k)) (by omega)
        refine ⟨min (sends k + m) buffer.length, by omega, ?_, ?_, fun _ => by omega⟩
        · show buffer.take (sends k) ++ (writen sends (k + 1) (buffer.drop (sends k))).2.1.flatten =
            buffer.take (min (sends k + m) buffer.length)
          rw [hflatten, ← List.take_add]
          by_cases hle : sends k + m ≤ buffer.length
          · rw [Nat.min_eq_left hle]
          · rw [Nat.min_eq_right (by omega), List.take_length,
              List.take_of_length_le (show buffer.length ≤ sends k + m by omega)]
        · rw [htrue]
          omega

/-! ### The frame -/

/-- Whatever stood in the memory, the stores leave the length and the payload there. -/
theorem window_frameWrites (a : WriteArg) {ws : List (Write UInt8)} (h : frameWrites a = some ws)
    (mem : ℕ → UInt8) : window (writeAll mem ws) 0 a.frameSize = counted a.bytes := by
  rw [frameWrites] at h
  split at h
  · cases h
    show window (store (store (store mem 0 _) 0 _) 4 a.bytes) 0 (a.bytes.length + 4) = _
    rw [Nat.add_comm, window_store_append]
    have hlength := window_store (be32 (UInt32.ofNat a.bytes.length))
      (store mem 0 (List.replicate sizeofString 0)) 0
    rw [be32_length] at hlength
    rw [hlength]
    rfl
  · cases h

/-- Every byte of the frame is stored. -/
theorem frameWrites_cover (a : WriteArg) {ws : List (Write UInt8)} (h : frameWrites a = some ws)
    {i : ℕ} (hi : i < a.frameSize) : ∃ w ∈ ws, w.Covers i := by
  rw [WriteArg.frameSize] at hi
  rw [frameWrites] at h
  split at h
  · cases h
    by_cases hfour : i < 4
    · exact ⟨⟨0, be32 (UInt32.ofNat a.bytes.length)⟩, by simp, Nat.zero_le i, hfour⟩
    · refine ⟨⟨4, a.bytes⟩, by simp, Nat.le_of_not_lt hfour, ?_⟩
      show i < 4 + a.bytes.length
      omega
  · cases h

/-- **All stores are inside exactly for these payloads.**  For every payload of at least one byte,
each store has an index below the size of the frame and every byte sent has been stored, if and
only if the payload has at least 28 bytes, and no more than leave `ilen+4` an `int`. -/
theorem stores_inside_iff (a : WriteArg) :
    StoresInside a ↔ 28 ≤ a.bytes.length ∧ a.bytes.length + 4 < 2 ^ 31 := by
  constructor
  · intro ⟨ws, hws, hbelow, _⟩
    rw [frameWrites] at hws
    split at hws
    · next hint =>
      cases hws
      have hclear := hbelow ⟨0, List.replicate sizeofString 0⟩ (by simp) 31
        ⟨Nat.zero_le 31, by decide⟩
      rw [WriteArg.frameSize] at hclear hint
      exact ⟨by omega, hint⟩
    · cases hws
  · intro ⟨hlong, hsize⟩
    have hint : a.frameSize < 2 ^ 31 := hsize
    obtain ⟨ws, hws⟩ : ∃ ws, frameWrites a = some ws := ⟨_, if_pos hint⟩
    refine ⟨ws, hws, ?_, fun mem sends => ?_⟩
    · rw [frameWrites, if_pos hint] at hws
      cases hws
      have hnonempty := a.nonempty
      intro w hw i hi
      have hhi := hi.2
      rw [WriteArg.frameSize]
      simp only [List.mem_cons, List.not_mem_nil, or_false] at hw
      rcases hw with rfl | rfl | rfl
      · have hclear : i < 0 + 32 := hhi
        omega
      · have hlength : i < 0 + 4 := hhi
        omega
      · exact Nat.lt_of_lt_of_eq hhi (Nat.add_comm _ _)
    · obtain ⟨m, hm, hflatten, -, -⟩ :=
        writen_taken sends _ 0 (window (writeAll mem ws) 0 a.frameSize) (le_refl _)
      rw [window_length] at hm
      refine ⟨m, hm, ?_, fun i hi => frameWrites_cover a hws (by omega)⟩
      rw [sentBytes, hflatten, window_take _ _ hm]

/-- The reply with the number of tests, for a submission whose key is one byte. -/
def shortReply : MessageResultJudge :=
  MessageResultJudge.new (ascii "a") .success (ascii "allSize:1")

/-- **A reply the worker sends**: it has 26 bytes, and two are cleared behind the frame's 30. -/
theorem short_reply_outside :
    shortReply.dumps.length = 26 ∧
      ¬ StoresInside ⟨shortReply.dumps, by decide +kernel, by decide +kernel⟩ := by
  have hlength : shortReply.dumps.length = 26 := by decide +kernel
  refine ⟨hlength, fun ⟨ws, hws, hbelow, _⟩ => ?_⟩
  rw [frameWrites, WriteArg.frameSize, if_pos (by rw [hlength]; omega)] at hws
  cases hws
  have hclear := hbelow ⟨0, List.replicate sizeofString 0⟩ (by simp) 31
        ⟨Nat.zero_le 31, by decide⟩
  rw [WriteArg.frameSize, hlength] at hclear
  omega

end Rojcpp.Judge
