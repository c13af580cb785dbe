import Rojcpp.Http.Response
import Rojcpp.Lib.Ends
import Rojcpp.Lib.Memory

/-!
# The memory below the growing buffer

`Buffer` of `tools/buffers.h` once more, now with the memory it owns: `expand_size` allocates a
block, copies the old one into it and gives the old one back, `memcpy` stores behind the used
bytes, and all sizes are `std::size_t`.  A store past the block and a loop that does not end are
outcomes of the model, so that their absence can be proved.

`Models` says which list-level `Buffer` such a buffer stands for.  Every operation refines the
operation of that buffer, or ends because an allocation is refused.
-/

namespace Rojcpp.Http

open Rojcpp.Lib

/-- What can go wrong: an allocation is refused, a store leaves the block, a loop does not end. -/
inductive Misuse where
  | badAlloc
  | outside
  | endless
  deriving DecidableEq, Repr

/-- The allocator: asked for a size, a block with whatever stands in it, or a refusal. -/
abbrev Allocator : Type := ℕ → Option (ℕ → UInt8)

/-- `Buffer<std::byte>` with its memory; `none` is the null pointer. -/
structure RawBuffer where
  rawMem : Option (ℕ → UInt8)
  totMem : ℕ
  usedMem : ℕ

namespace RawBuffer

/-- A new buffer owns no memory. -/
def init : RawBuffer := ⟨none, 0, 0⟩

/-- `std::size_t` arithmetic. -/
def sizeT (n : ℕ) : ℕ := n % 2 ^ 64

/-- `left_size`, on the unsigned difference. -/
def leftSize (r : RawBuffer) : ℕ :=
  let difference := (((r.totMem : ℤ) - r.usedMem) % 2 ^ 64).toNat
  if 0 < difference then difference else 0

/-- `empty`. -/
def empty (r : RawBuffer) : Bool := r.rawMem.isNone || r.totMem == 0

/-- `clear`. -/
def clear (r : RawBuffer) : RawBuffer := { r with usedMem := 0 }

/-- `update_used_sized`. -/
def updateUsedSized (r : RawBuffer) (size : ℕ) : RawBuffer :=
  { r with usedMem := sizeT (r.usedMem + size) }

/-- `expand_size`.  The old block is copied as a whole, which is a store past the new one when the
new size has wrapped around. -/
def expandSize (alloc : Allocator) (r : RawBuffer) (size : ℕ) : Except Misuse RawBuffer :=
  match alloc (sizeT (r.totMem + size)) with
  | none => .error .badAlloc
  | some tmp =>
    match r.rawMem with
    | none => .ok { r with rawMem := some tmp, totMem := size }
    | some raw =>
      if sizeT (r.totMem + size) < r.totMem then .error .outside
      else .ok { r with
        rawMem := some (store tmp 0 (window raw 0 r.totMem))
        totMem := sizeT (r.totMem + size) }

/-- `expand_twice_size`. -/
def expandTwiceSize (alloc : Allocator) (r : RawBuffer) : Except Misuse RawBuffer :=
  r.expandSize alloc (if r.totMem = 0 then 1 else sizeT (2 * r.totMem))

/-- The bytes are stored at `write_data()`. -/
def put (r : RawBuffer) (bytes : Str) : Except Misuse RawBuffer :=
  match r.rawMem with
  | none => if bytes = [] then .ok r else .error .outside
  | some raw =>
    if r.usedMem + bytes.length ≤ r.totMem then
      .ok { r with rawMem := some (store raw r.usedMem bytes) }
    else .error .outside

/-- The loop of `append_buff`, with fuel. -/
def makeRoom (alloc : Allocator) (size : ℕ) : ℕ → RawBuffer → Except Misuse RawBuffer
  | 0, r => if r.leftSize < size then .error .endless else .ok r
  | fuel + 1, r =>
    if r.leftSize < size then r.expandTwiceSize alloc >>= makeRoom alloc size fuel else .ok r

/-- `append_buff(buff, buff_size)`. -/
def appendBuff (alloc : Allocator) (r : RawBuffer) (bytes : Str) : Except Misuse RawBuffer := do
  let r ← (if r.empty then r.expandSize alloc (32 * 1024) else .ok r)
  let r ← makeRoom alloc bytes.length 64 r
  let r ← r.put bytes
  return r.updateUsedSized bytes.length

/-- `http_session::req_buff`: the buffer whose `write_data()` and `left_size()` it offers. -/
def reqBuff (alloc : Allocator) (r : RawBuffer) : Except Misuse RawBuffer := do
  let r ← (if r.empty then r.expandSize alloc (1024 * 1024) else .ok r)
  if r.leftSize ≤ 0 then r.expandTwiceSize alloc else .ok r

/-- A read of these bytes into the offered window, and `update_req_buff_used_size`. -/
def receive (alloc : Allocator) (r : RawBuffer) (bytes : Str) : Except Misuse RawBuffer := do
  let r ← r.reqBuff alloc
  let r ← r.put bytes
  return r.updateUsedSized bytes.length

/-- `data()[0 .. used_size())`. -/
def bytes (r : RawBuffer) : Str :=
  match r.rawMem with
  | none => []
  | some raw => window raw 0 r.usedMem

end RawBuffer

/-! ### Sequences of calls -/

/-- The calls a response or a request makes on its buffer. -/
inductive BufferCall where
  | clear
  | append (bytes : Str)
  | receive (bytes : Str)
  deriving DecidableEq, Repr

/-- One call. -/
def BufferCall.apply (alloc : Allocator) (r : RawBuffer) : BufferCall → Except Misuse RawBuffer
  | .clear => .ok r.clear
  | .append bytes => r.appendBuff alloc bytes
  | .receive bytes => r.receive alloc bytes

/-- The calls one after the other. -/
def runCalls (alloc : Allocator) (r : RawBuffer) : List BufferCall → Except Misuse RawBuffer
  | [] => .ok r
  | c :: cs => c.apply alloc r >>= fun r => runCalls alloc r cs

/-- What was handed in since the last `clear`, on top of `got`. -/
def sinceClear (got : Str) : List BufferCall → Str
  | [] => got
  | .clear :: cs => sinceClear [] cs
  | .append bytes :: cs => sinceClear (got ++ bytes) cs
  | .receive bytes :: cs => sinceClear (got ++ bytes) cs

/-- A read fits the window it is offered. -/
def BufferCall.Fits (alloc : Allocator) (r : RawBuffer) : BufferCall → Prop
  | .receive bytes => ∀ offered, r.reqBuff alloc = .ok offered → bytes.length ≤ offered.leftSize
  | _ => True

/-- Every read of the sequence fits the window it is offered. -/
def ReadsFit (alloc : Allocator) (r : RawBuffer) : List BufferCall → Prop
  | [] => True
  | c :: cs => c.Fits alloc r ∧ ∀ r', c.apply alloc r = .ok r' → ReadsFit alloc r' cs

/-! ### What a buffer stands for -/

/-- The buffer stands for a list-level one: same bytes in use, same sizes, and the pointer is null
exactly while nothing is allocated. -/
structure RawBuffer.Models (r : RawBuffer) (b : Buffer) : Prop where
  bytes : r.bytes = b.data
  used : r.usedMem = b.data.length
  tot : r.totMem = b.totMem
  null : r.rawMem = none ↔ r.totMem = 0

/-- A buffer that has never had to hold `2 ^ 62` bytes: what is used is allocated, and growing
cannot wrap a size around. -/
structure Buffer.Sound (b : Buffer) : Prop where
  used : b.usedSize ≤ b.totMem
  tot : b.totMem < 3 * 2 ^ 62

/-- The only thing that may go wrong: the allocator has refused a block. -/
def Refused (alloc : Allocator) (e : Misuse) : Prop := e = .badAlloc ∧ ∃ n, alloc n = none

/-- The operation gives a buffer that stands for `b`, or an allocation is refused. -/
abbrev Refines (alloc : Allocator) (b : Buffer) : Except Misuse RawBuffer → Prop :=
  Ends (Refused alloc) fun r => r.Models b

variable {alloc : Allocator} {r : RawBuffer} {b : Buffer}

theorem RawBuffer.Models.usedSize (h : r.Models b) : r.usedMem = b.usedSize := h.used

theorem RawBuffer.Models.leftSize (h : r.Models b) : r.leftSize = b.leftSize := by
  rw [RawBuffer.leftSize, Buffer.leftSize, h.usedSize, h.tot]
  split
  · rfl
  · omega

theorem RawBuffer.Models.empty (h : r.Models b) : r.empty = (b.totMem == 0) := by
  rw [RawBuffer.empty, ← h.tot]
  cases hraw : r.rawMem with
  | none => rw [h.null.mp hraw]; rfl
  | some raw => rfl

/-- The used bytes as a window of the block. -/
theorem RawBuffer.Models.window {raw : ℕ → UInt8} (h : r.Models b) (hraw : r.rawMem = some raw) :
    window raw 0 b.data.length = b.data := by
  have hbytes := h.bytes
  rw [RawBuffer.bytes, hraw] at hbytes
  rw [← h.used]
  exact hbytes

theorem RawBuffer.init_models : RawBuffer.init.Models Buffer.init :=
  ⟨rfl, rfl, rfl, iff_of_true rfl rfl⟩

theorem RawBuffer.clear_models (h : r.Models b) : r.clear.Models b.clear := by
  refine ⟨?_, rfl, h.tot, h.null⟩
  show RawBuffer.bytes { r with usedMem := 0 } = []
  rw [RawBuffer.bytes]
  cases r.rawMem <;> rfl

/-- **`expand_size` keeps the used bytes**: they are copied into the new block, or there were
none. -/
theorem RawBuffer.expandSize_refines (h : r.Models b) (hb : b.usedSize ≤ b.totMem) {size : ℕ}
    (hpos : 0 < size) (hsize : b.totMem + size < 2 ^ 64) :
    Refines alloc (b.expandSize size) (r.expandSize alloc size) := by
  have hsum : sizeT (r.totMem + size) = b.totMem + size := by
    rw [h.tot, sizeT, Nat.mod_eq_of_lt hsize]
  rw [RawBuffer.expandSize, hsum]
  cases halloc : alloc (b.totMem + size) with
  | none => exact .error ⟨rfl, _, halloc⟩
  | some tmp =>
    cases hraw : r.rawMem with
    | none =>
      have htot : b.totMem = 0 := by rw [← h.tot]; exact h.null.mp hraw
      have hdata : b.data = [] := List.length_eq_zero_iff.mp (by
        have hle : b.data.length ≤ b.totMem := hb
        omega)
      refine .ok ⟨?_, h.used, ?_, ?_⟩
      · show window tmp 0 r.usedMem = b.data
        rw [h.used, hdata]
        rfl
      · show size = b.totMem + size
        rw [htot, Nat.zero_add]
      · exact iff_of_false (by simp) (Nat.ne_of_gt hpos)
    | some raw =>
      rw [h.tot]
      simp only
      rw [if_neg (by omega)]
      refine .ok ⟨?_, h.used, rfl, ?_⟩
      · show window (store tmp 0 (window raw 0 b.totMem)) 0 r.usedMem = b.data
        have hcopy := window_store (window raw 0 b.totMem) tmp 0
        rw [window_length] at hcopy
        have hle : b.data.length ≤ b.totMem := hb
        rw [h.used, ← window_take _ _ hle, hcopy, window_take _ _ hle]
        exact h.window hraw
      · exact iff_of_false (by simp) (by show b.totMem + size ≠ 0; omega)

/-- `expand_twice_size` where less than `2 ^ 62` bytes are allocated. -/
theorem RawBuffer.expandTwiceSize_refines (h : r.Models b) (hb : b.usedSize ≤ b.totMem)
    (hpos : 0 < b.totMem) (htot : b.totMem < 2 ^ 62) :
    Refines alloc b.expandTwiceSize (r.expandTwiceSize alloc) := by
  have hdouble : sizeT (2 * b.totMem) = 2 * b.totMem := Nat.mod_eq_of_lt (by omega)
  rw [RawBuffer.expandTwiceSize, Buffer.expandTwiceSize, h.tot, hdouble,
    if_neg (Nat.ne_of_gt hpos)]
  exact expandSize_refines h hb (by omega) (by omega)

variable (alloc) in
/-- A store that fits, and the update of the counter. -/
theorem RawBuffer.put_refines (h : r.Models b) (hpos : 0 < b.totMem) {bytes : Str}
    (hroom : b.usedSize + bytes.length ≤ b.totMem) (htot : b.totMem < 2 ^ 64) :
    Refines alloc (b.updateUsedSized bytes)
      (r.put bytes >>= fun r => pure (r.updateUsedSized bytes.length)) := by
  have hsome : r.rawMem ≠ none := by
    intro hnone
    have hzero := h.null.mp hnone
    rw [h.tot] at hzero
    omega
  obtain ⟨raw, hraw⟩ := Option.ne_none_iff_exists'.mp hsome
  have hfit : r.usedMem + bytes.length ≤ r.totMem := by
    rw [h.usedSize, h.tot]
    exact hroom
  rw [RawBuffer.put, hraw]
  simp only
  rw [if_pos hfit]
  have hused : sizeT (r.usedMem + bytes.length) = (b.data ++ bytes).length := by
    rw [List.length_append, ← h.used]
    exact Nat.mod_eq_of_lt (by rw [h.tot] at hfit; omega)
  refine .ok ⟨?_, hused, h.tot, ?_⟩
  · show Lib.window (store raw r.usedMem bytes) 0 (sizeT (r.usedMem + bytes.length)) =
      b.data ++ bytes
    rw [hused, List.length_append, h.used, window_store_append, h.window hraw]
  · exact iff_of_false (by simp [RawBuffer.updateUsedSized])
      (by show r.totMem ≠ 0; rw [h.tot]; omega)

/-! ### The operations -/

theorem Buffer.Sound.leftSize (hb : b.Sound) : b.leftSize = b.totMem - b.usedSize :=
  b.leftSize_eq hb.used (Nat.lt_trans hb.tot (by norm_num))

variable (alloc) in
/-- The first allocation of an operation. -/
theorem RawBuffer.first_refines (h : r.Models b) (hb : b.Sound) (size : ℕ) (hpos : 0 < size)
    (hsize : size < 2 ^ 62) :
    Refines alloc (if b.totMem = 0 then b.expandSize size else b)
      (if r.empty then r.expandSize alloc size else .ok r) := by
  rw [h.empty]
  by_cases htot : b.totMem = 0
  · rw [if_pos htot, htot]
    exact expandSize_refines h hb.used hpos (by omega)
  · rw [if_neg htot, beq_eq_false_iff_ne.mpr htot]
    exact .ok h

theorem Buffer.Sound.first (hb : b.Sound) (size : ℕ) (hpos : 0 < size) (hsize : size < 2 ^ 62) :
    (if b.totMem = 0 then b.expandSize size else b).Sound ∧
      0 < (if b.totMem = 0 then b.expandSize size else b).totMem ∧
      (if b.totMem = 0 then b.expandSize size else b).data = b.data := by
  have hused := hb.used
  by_cases htot : b.totMem = 0
  · rw [if_pos htot]
    refine ⟨⟨?_, ?_⟩, ?_, rfl⟩
    · show b.usedSize ≤ b.totMem + size
      omega
    · show b.totMem + size < 3 * 2 ^ 62
      omega
    · show 0 < b.totMem + size
      omega
  · rw [if_neg htot]
    exact ⟨hb, Nat.pos_of_ne_zero htot, rfl⟩

/-- A sound buffer that is asked for more than it has left grows by `expand_twice_size`. -/
theorem Buffer.Sound.grown (hb : b.Sound) (hpos : 0 < b.totMem) (htot : b.totMem < 2 ^ 62) :
    b.expandTwiceSize.Sound := by
  have hgrown := expandTwiceSize_totMem hpos
  have hused := hb.used
  refine ⟨?_, ?_⟩
  · show b.usedSize ≤ b.expandTwiceSize.totMem
    omega
  · omega

theorem Buffer.Sound.makeRoom (size fuel : ℕ) : ∀ {b : Buffer}, b.Sound → 0 < b.totMem →
    b.usedSize + size < 2 ^ 62 →
    (b.makeRoom size fuel).Sound ∧ 0 < (b.makeRoom size fuel).totMem := by
  induction fuel with
  | zero => exact fun hb hpos _ => ⟨hb, hpos⟩
  | succ fuel ih =>
    intro b hb hpos hsize
    rw [Buffer.makeRoom]
    by_cases hleft : b.leftSize < size
    · rw [if_pos hleft]
      rw [hb.leftSize] at hleft
      have hgrown := expandTwiceSize_totMem hpos
      exact ih (hb.grown hpos (by omega)) (by omega) hsize
    · rw [if_neg hleft]
      exact ⟨hb, hpos⟩

/-- **The loop of `append_buff` ends**: the memory triples each turn, so that there is room after as
many turns as the power of three says, and each turn refines that of the list-level buffer. -/
theorem RawBuffer.makeRoom_refines (size fuel : ℕ) : ∀ {r : RawBuffer} {b : Buffer},
    r.Models b → b.Sound → 0 < b.totMem → b.usedSize + size < 2 ^ 62 →
    2 ^ 62 ≤ b.totMem * 3 ^ fuel →
    Refines alloc (b.makeRoom size fuel) (makeRoom alloc size fuel r) := by
  induction fuel with
  | zero =>
    intro r b h hb _ hsize henough
    rw [makeRoom, h.leftSize, hb.leftSize, if_neg (by omega)]
    exact .ok h
  | succ fuel ih =>
    intro r b h hb hpos hsize henough
    rw [makeRoom, Buffer.makeRoom, h.leftSize]
    by_cases hleft : b.leftSize < size
    · rw [if_pos hleft, if_pos hleft]
      rw [hb.leftSize] at hleft
      have hsmall : b.totMem < 2 ^ 62 := by omega
      have hgrown := Buffer.expandTwiceSize_totMem hpos
      apply (expandTwiceSize_refines h hb.used hpos hsmall).bind
      intro r' h'
      apply ih h' (hb.grown hpos hsmall) (by omega) hsize
      calc 2 ^ 62 ≤ b.totMem * 3 ^ (fuel + 1) := henough
        _ = b.expandTwiceSize.totMem * 3 ^ fuel := by rw [hgrown, Nat.pow_succ]; ring
    · rw [if_neg hleft, if_neg hleft]
      exact .ok h

/-- What `append_buff` and `req_buff` leave room for may be taken into use. -/
theorem Buffer.Sound.updateUsedSized (hb : b.Sound) {bytes : Str}
    (hroom : bytes.length ≤ b.leftSize) :
    b.usedSize + bytes.length ≤ b.totMem ∧ (b.updateUsedSized bytes).Sound := by
  have hused := hb.used
  rw [hb.leftSize] at hroom
  have hle : b.usedSize + bytes.length ≤ b.totMem := by omega
  refine ⟨hle, ⟨?_, hb.tot⟩⟩
  rw [Buffer.updateUsedSized_usedSize]
  exact hle

variable (alloc) in
/-- **`append_buff` refines the append of the list-level buffer.** -/
theorem RawBuffer.appendBuff_refines (h : r.Models b) (hb : b.Sound) {bytes : Str}
    (hsize : b.usedSize + bytes.length < 2 ^ 62) :
    Refines alloc (b.append bytes) (r.appendBuff alloc bytes) ∧ (b.append bytes).Sound := by
  rw [RawBuffer.appendBuff, Buffer.append]
  obtain ⟨hfirst, hpos, hdata⟩ := hb.first (32 * 1024) (by omega) (by omega)
  have hr := first_refines alloc h hb (32 * 1024) (by omega) (by omega)
  generalize (if b.totMem = 0 then b.expandSize (32 * 1024) else b) = b₁ at hfirst hpos hdata hr ⊢
  have hsize₁ : b₁.usedSize + bytes.length < 2 ^ 62 := by rw [Buffer.usedSize, hdata]; exact hsize
  obtain ⟨hgrown, hpos'⟩ := hfirst.makeRoom bytes.length 64 hpos hsize₁
  have henough := b₁.makeRoom_enough bytes.length hpos hfirst.used
    (Nat.lt_trans hfirst.tot (by norm_num)) (Nat.le_of_lt hsize₁)
  obtain ⟨hroom, hsound⟩ := hgrown.updateUsedSized henough
  refine ⟨?_, hsound⟩
  apply hr.bind
  intro r₁ h₁
  have hturns : 2 ^ 62 ≤ b₁.totMem * 3 ^ 64 := by
    calc 2 ^ 62 ≤ 1 * 3 ^ 64 := by norm_num
      _ ≤ b₁.totMem * 3 ^ 64 := Nat.mul_le_mul_right _ hpos
  apply (makeRoom_refines bytes.length 64 h₁ hfirst hpos hsize₁ hturns).bind
  intro r₂ h₂
  exact put_refines alloc h₂ hpos' hroom (Nat.lt_trans hgrown.tot (by norm_num))

theorem Buffer.Sound.reqBuff (hb : b.Sound) (hsize : b.usedSize < 2 ^ 62) :
    b.reqBuff.Sound ∧ 0 < b.reqBuff.leftSize := by
  have hused := hb.used
  have htot := hb.tot
  have hgrown : b.reqBuff.totMem < 3 * 2 ^ 62 := by
    by_cases hempty : b.totMem = 0
    · rw [reqBuff_of_empty hempty hused]
      show b.totMem + 1024 * 1024 < 3 * 2 ^ 62
      omega
    · have hleft := hb.leftSize
      rw [Buffer.reqBuff, if_neg hempty]
      by_cases hfull : b.leftSize ≤ 0
      · rw [if_pos hfull, expandTwiceSize_totMem (Nat.pos_of_ne_zero hempty)]
        omega
      · rw [if_neg hfull]
        exact htot
  obtain ⟨hle, -, hpos⟩ := reqBuff_window hused (by omega) (by omega)
  exact ⟨⟨hle, hgrown⟩, hpos⟩

variable (alloc) in
/-- **`req_buff` refines that of the list-level buffer.** -/
theorem RawBuffer.reqBuff_refines (h : r.Models b) (hb : b.Sound) (hsize : b.usedSize < 2 ^ 62) :
    Refines alloc b.reqBuff (r.reqBuff alloc) := by
  rw [RawBuffer.reqBuff, Buffer.reqBuff]
  obtain ⟨hfirst, hpos, hdata⟩ := hb.first (1024 * 1024) (by omega) (by omega)
  have hr := first_refines alloc h hb (1024 * 1024) (by omega) (by omega)
  generalize (if b.totMem = 0 then b.expandSize (1024 * 1024) else b) = b₁
    at hfirst hpos hdata hr ⊢
  have hsize₁ : b₁.usedSize < 2 ^ 62 := by rw [Buffer.usedSize, hdata]; exact hsize
  have hleft := hfirst.leftSize
  apply hr.bind
  intro r₁ h₁
  rw [h₁.leftSize]
  by_cases hfull : b₁.leftSize ≤ 0
  · rw [if_pos hfull, if_pos hfull]
    exact expandTwiceSize_refines h₁ hfirst.used hpos (by omega)
  · rw [if_neg hfull, if_neg hfull]
    exact .ok h₁

/-! ### The run -/

theorem sinceClear_cons (got : Str) (c : BufferCall) (cs : List BufferCall) :
    sinceClear got (c :: cs) = sinceClear (sinceClear got [c]) cs := by
  cases c <;> rfl

/-- One call keeps the buffer sound and does to the bytes what the call says. -/
theorem BufferCall.apply_ends (c : BufferCall) (h : r.Models b) (hb : b.Sound)
    (hsize : (sinceClear b.data [c]).length < 2 ^ 62) (hfit : c.Fits alloc r) :
    Ends (Refused alloc)
      (fun r' => ∃ b' : Buffer, r'.Models b' ∧ b'.Sound ∧ b'.data = sinceClear b.data [c])
      (c.apply alloc r) := by
  cases c with
  | clear => exact .ok ⟨b.clear, RawBuffer.clear_models h, ⟨Nat.zero_le _, hb.tot⟩, rfl⟩
  | append bytes =>
    have hsum : b.usedSize + bytes.length < 2 ^ 62 := by
      rw [sinceClear, sinceClear, List.length_append] at hsize
      exact hsize
    obtain ⟨hr, hsound⟩ := RawBuffer.appendBuff_refines alloc h hb hsum
    exact hr.mono fun r' h' => ⟨_, h', hsound, b.append_data bytes⟩
  | receive bytes =>
    have hused : b.usedSize < 2 ^ 62 := by
      rw [sinceClear, sinceClear, List.length_append] at hsize
      exact Nat.lt_of_le_of_lt (Nat.le_add_right _ _) hsize
    obtain ⟨hsound, hleft⟩ := hb.reqBuff hused
    apply (RawBuffer.reqBuff_refines alloc h hb hused).bind_eq
    intro r' hoffered h'
    have hroom : bytes.length ≤ b.reqBuff.leftSize := by
      rw [← h'.leftSize]
      exact hfit r' hoffered
    obtain ⟨hle, hsound'⟩ := hsound.updateUsedSized hroom
    have hpos : 0 < b.reqBuff.totMem := by
      rw [hsound.leftSize] at hleft
      omega
    have hput := RawBuffer.put_refines alloc h' hpos hle
      (Nat.lt_trans hsound.tot (by norm_num))
    refine hput.mono fun r'' h'' => ⟨_, h'', hsound', ?_⟩
    rw [Buffer.updateUsedSized_data, Buffer.reqBuff_data]
    rfl

/-- The calls after one another, from any sound buffer. -/
theorem runCalls_ends (cs : List BufferCall) : ∀ {r : RawBuffer} {b : Buffer},
    r.Models b → b.Sound → (∀ pre, pre <+: cs → (sinceClear b.data pre).length < 2 ^ 62) →
    ReadsFit alloc r cs →
    Ends (Refused alloc)
      (fun r' => ∃ b' : Buffer, r'.Models b' ∧ b'.Sound ∧ b'.data = sinceClear b.data cs)
      (runCalls alloc r cs) := by
  induction cs with
  | nil => exact fun h hb _ _ => .ok ⟨_, h, hb, rfl⟩
  | cons c cs ih =>
    intro r b h hb hsize hfit
    have hnow := c.apply_ends h hb (hsize [c] (List.prefix_append [c] cs)) hfit.1
    apply hnow.bind_eq
    intro r' hr' ⟨b', h', hb', hdata⟩
    have hrest := ih h' hb' (fun pre hpre => ?_) (hfit.2 r' hr')
    · rw [sinceClear_cons, ← hdata]
      exact hrest
    · have hcons := hsize (c :: pre) (List.cons_prefix_cons.mpr ⟨rfl, hpre⟩)
      rw [sinceClear_cons, ← hdata] at hcons
      exact hcons

theorem ReadsFit.of_prefix {pre cs : List BufferCall} (hpre : pre <+: cs) :
    ∀ {r : RawBuffer}, ReadsFit alloc r cs → ReadsFit alloc r pre := by
  obtain ⟨post, rfl⟩ := hpre
  induction pre with
  | nil => exact fun _ => trivial
  | cons c pre ih => exact fun h => ⟨h.1, fun r' hr' => ih (h.2 r' hr')⟩

/-- **The buffer holds what was handed in since the last `clear`.**  For every sequence of calls in
which less than `2 ^ 62` bytes stand in the buffer at any time and every read fits its window, and
after every part of it: no loop runs on, no store leaves the block, the used bytes are allocated,
and they are the bytes of the calls since the last `clear`, whenever and however often the buffer
has grown.  Only a refused allocation ends the sequence early. -/
theorem buffer_contents (alloc : Allocator) (calls : List BufferCall)
    (hsize : ∀ pre, pre <+: calls → (sinceClear [] pre).length < 2 ^ 62)
    (hfit : ReadsFit alloc RawBuffer.init calls) (pre : List BufferCall) (hpre : pre <+: calls) :
    Ends (Refused alloc)
      (fun r => r.usedMem ≤ r.totMem ∧ r.usedMem = (sinceClear [] pre).length ∧
        r.bytes = sinceClear [] pre)
      (runCalls alloc RawBuffer.init pre) := by
  have hempty : Buffer.init.Sound := ⟨Nat.le_refl 0, by decide⟩
  have hrun := runCalls_ends pre RawBuffer.init_models hempty
    (fun p hp => hsize p (hp.trans hpre)) (hfit.of_prefix hpre)
  refine hrun.mono fun r ⟨b, h, hb, hdata⟩ => ⟨?_, ?_, ?_⟩
  · rw [h.usedSize, h.tot]
    exact hb.used
  · rw [h.used, hdata]
    rfl
  · rw [h.bytes, hdata]
    rfl

/-- A read, a `clear` and two appends, over an allocator that never refuses. -/
theorem buffer_contents_reused :
    Ends (Refused fun _ => some fun _ => 0)
      (fun r => r.usedMem ≤ r.totMem ∧ r.usedMem = 3 ∧ r.bytes = [1, 2, 3])
      (runCalls (fun _ => some fun _ => 0) RawBuffer.init
        [.receive [71], .clear, .append [1, 2], .append [3]]) := by
  have hrun := buffer_contents (fun _ => some fun _ => 0)
    [.receive [71], .clear, .append [1, 2], .append [3]] ?_ ?_ _ List.prefix_rfl
  · exact hrun
  · intro pre hpre
    have hall : ([.receive [71], .clear, .append [1, 2], .append [3]] : List BufferCall).inits.all
        (fun pre => decide ((sinceClear [] pre).length < 2 ^ 62)) = true := by decide +kernel
    exact of_decide_eq_true (List.all_eq_true.mp hall pre (List.mem_inits pre _ |>.mpr hpre))
  · refine ⟨fun offered h => ?_, fun _ _ => ⟨trivial, fun _ _ => ⟨trivial, fun _ _ =>
      ⟨trivial, fun _ _ => trivial⟩⟩⟩⟩
    cases h
    decide

end Rojcpp.Http
