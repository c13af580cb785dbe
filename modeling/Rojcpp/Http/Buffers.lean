import Rojcpp.Cpp.Text

/-!
# The growing buffer of a session

`Buffer` of `tools/buffers.h`.  The bytes in use are a list, and the size of the allocated memory
is a number: `expand_size` copies what is there, so growing never changes a used byte.  The raw
pointer is null exactly while nothing is allocated.
-/

namespace Rojcpp.Http

/-- `Buffer<std::byte>`: the used bytes and the size of the allocated memory. -/
structure Buffer where
  data : Str
  totMem : ℕ
  deriving DecidableEq, Repr

/-- A new buffer owns no memory. -/
def Buffer.init : Buffer := ⟨[], 0⟩

/-- `used_size`. -/
def Buffer.usedSize (b : Buffer) : ℕ := b.data.length

/-- `left_size`: an unsigned difference, which wraps around when more is used than allocated. -/
def Buffer.leftSize (b : Buffer) : ℕ := (((b.totMem : ℤ) - b.usedSize) % 2 ^ 64).toNat

/-- `expand_size`. -/
def Buffer.expandSize (b : Buffer) (size : ℕ) : Buffer := { b with totMem := b.totMem + size }

/-- `expand_twice_size`. -/
def Buffer.expandTwiceSize (b : Buffer) : Buffer :=
  b.expandSize (if b.totMem = 0 then 1 else 2 * b.totMem)

/-- `update_used_sized`, together with the bytes that now stand in the part it takes into use. -/
def Buffer.updateUsedSized (b : Buffer) (written : Str) : Buffer :=
  { b with data := b.data ++ written }

/-- `http_session::req_buff`: the buffer as it is before a read is offered its free part. -/
def Buffer.reqBuff (b : Buffer) : Buffer :=
  let b := if b.totMem = 0 then b.expandSize (1024 * 1024) else b
  if b.leftSize ≤ 0 then b.expandTwiceSize else b

@[simp] theorem Buffer.reqBuff_data (b : Buffer) : b.reqBuff.data = b.data := by
  simp only [reqBuff, expandTwiceSize, expandSize]
  split <;> split <;> rfl

@[simp] theorem Buffer.updateUsedSized_data (b : Buffer) (written : Str) :
    (b.updateUsedSized written).data = b.data ++ written := rfl

theorem Buffer.updateUsedSized_usedSize (b : Buffer) (written : Str) :
    (b.updateUsedSized written).usedSize = b.usedSize + written.length := by
  show (b.data ++ written).length = b.data.length + written.length
  exact List.length_append

theorem Buffer.leftSize_eq (b : Buffer) (hused : b.usedSize ≤ b.totMem) (htot : b.totMem < 2 ^ 64) :
    b.leftSize = b.totMem - b.usedSize := by
  rw [leftSize, Int.emod_eq_of_lt (by omega) (by omega)]
  omega

/-- Memory that is there grows to three times its size. -/
theorem Buffer.expandTwiceSize_totMem {b : Buffer} (hpos : 0 < b.totMem) :
    b.expandTwiceSize.totMem = 3 * b.totMem := by
  rw [expandTwiceSize, if_neg (Nat.ne_of_gt hpos), expandSize]
  show b.totMem + 2 * b.totMem = 3 * b.totMem
  omega

/-- What `req_buff` allocates while the buffer is empty. -/
theorem Buffer.reqBuff_of_empty {b : Buffer} (htot : b.totMem = 0)
    (hused : b.usedSize ≤ b.totMem) : b.reqBuff = b.expandSize (1024 * 1024) := by
  have hsize : (b.expandSize (1024 * 1024)).totMem = 1024 * 1024 := by
    show b.totMem + 1024 * 1024 = 1024 * 1024
    omega
  have hnone : (b.expandSize (1024 * 1024)).usedSize = 0 := by
    show b.usedSize = 0
    omega
  have hleft := leftSize_eq (b.expandSize (1024 * 1024)) (by omega) (by omega)
  rw [reqBuff, if_pos htot, if_neg (by omega)]

/-- **`req_buff` of a buffer whose used bytes are allocated** offers what is behind them, and that
is not empty. -/
theorem Buffer.reqBuff_window {b : Buffer} (hused : b.usedSize ≤ b.totMem)
    (htot : b.totMem < 2 ^ 64) (hgrown : b.reqBuff.totMem < 2 ^ 64) :
    b.reqBuff.usedSize ≤ b.reqBuff.totMem ∧
      b.reqBuff.leftSize = b.reqBuff.totMem - b.reqBuff.usedSize ∧ 0 < b.reqBuff.leftSize := by
  have hkept : b.reqBuff.usedSize = b.usedSize := by rw [usedSize, reqBuff_data, usedSize]
  suffices hmore : b.usedSize < b.reqBuff.totMem by
    have hleft := leftSize_eq b.reqBuff (by omega) hgrown
    omega
  by_cases hempty : b.totMem = 0
  · rw [reqBuff_of_empty hempty hused]
    show b.usedSize < b.totMem + 1024 * 1024
    omega
  · have hleft := leftSize_eq b hused htot
    rw [reqBuff, if_neg hempty]
    by_cases hfull : b.leftSize ≤ 0
    · rw [if_pos hfull, expandTwiceSize_totMem (Nat.pos_of_ne_zero hempty)]
      omega
    · rw [if_neg hfull]
      omega

end Rojcpp.Http
