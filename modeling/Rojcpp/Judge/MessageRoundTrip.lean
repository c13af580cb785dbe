import Rojcpp.Judge.MessageBuffer

/-!
# Messages there and back

What `dumps` writes is read back by `loads`, field by field, and the cursor ends behind the last
byte.  `MessageSendJudge` has two decoders: one reads a string with a local cursor, the other a
`MessageBuffer` with the cursor the buffer keeps.
-/

namespace Rojcpp.Judge

open Rojcpp.Lib

/-! ### Reading from a buffer -/

/-- `MessageBuffer`: its bytes and the cursor for reading. -/
structure MessageBuffer where
  buff : Str
  cur : Int32
  deriving DecidableEq, Repr

/-- A buffer into which these bytes were pushed. -/
def MessageBuffer.filled (p : Str) : MessageBuffer := ⟨p, 0⟩

/-- `to_string`. -/
def MessageBuffer.toStr (b : MessageBuffer) : Str := b.buff

/-- `dumpsMessage<int>`. -/
def MessageBuffer.dumpsMessageInt (b : MessageBuffer) : Except Fault (Int32 × MessageBuffer) := do
  let r ← dumpsInt b.buff b.cur
  return (r.1, { b with cur := r.2 })

/-- `dumpsMessage<std::string>`. -/
def MessageBuffer.dumpsMessageString (b : MessageBuffer) :
    Except Fault (Str × MessageBuffer) := do
  let r ← dumpsString b.buff b.cur
  return (r.1, { b with cur := r.2 })

/-- `MessageSendJudge::loads(MessageBuffer &)`: the message and the buffer afterwards. -/
def MessageSendJudge.loadsBuffer (b : MessageBuffer) :
    Except Fault (MessageSendJudge × MessageBuffer) := do
  let key ← b.dumpsMessageString
  let code ← key.2.dumpsMessageString
  let language ← code.2.dumpsMessageString
  let pid ← language.2.dumpsMessageString
  let timeLimit ← pid.2.dumpsMessageInt
  let memoryLimit ← timeLimit.2.dumpsMessageInt
  return (⟨key.1, code.1, language.1, pid.1, timeLimit.1, memoryLimit.1⟩, memoryLimit.2)

/-- Both decoders do the same, the one with the cursor in the buffer. -/
theorem loadsBuffer_eq (p : Str) : MessageSendJudge.loadsBuffer (.filled p) =
    (MessageSendJudge.loads p).map fun r => (r.1, ⟨p, r.2⟩) := by
  simp only [MessageSendJudge.loadsBuffer, MessageSendJudge.loads,
    MessageBuffer.dumpsMessageString, MessageBuffer.dumpsMessageInt, MessageBuffer.filled]
  cases dumpsString p 0 with
  | error f => rfl
  | ok key =>
    show (dumpsString p key.2 >>= _) >>= _ = (dumpsString p key.2 >>= _).map _
    cases dumpsString p key.2 with
    | error f => rfl
    | ok code =>
      show (dumpsString p code.2 >>= _) >>= _ = (dumpsString p code.2 >>= _).map _
      cases dumpsString p code.2 with
      | error f => rfl
      | ok language =>
        show (dumpsString p language.2 >>= _) >>= _ = (dumpsString p language.2 >>= _).map _
        cases dumpsString p language.2 with
        | error f => rfl
        | ok pid =>
          show (dumpsInt p pid.2 >>= _) >>= _ = (dumpsInt p pid.2 >>= _).map _
          cases dumpsInt p pid.2 with
          | error f => rfl
          | ok timeLimit =>
            show (dumpsInt p timeLimit.2 >>= _) >>= _ = (dumpsInt p timeLimit.2 >>= _).map _
            cases dumpsInt p timeLimit.2 with
            | error f => rfl
            | ok memoryLimit => rfl

/-! ### Reading what was pushed -/

theorem appendMessge_eq (x : Str) : MessageBuffer.appendMessge x = counted x := rfl

/-- A number in the middle of a payload. -/
theorem dumpsInt_pushBack (pre t : Str) (v : UInt32)
    (hlen : (pre ++ (be32 v ++ t)).length < 2 ^ 31) :
    dumpsInt (pre ++ (be32 v ++ t)) (Int32.ofNat pre.length) =
      .ok (v.toInt32, Int32.ofNat (pre ++ be32 v).length) := by
  have hfit : pre.length + 4 ≤ (pre ++ (be32 v ++ t)).length := by
    simp only [List.length_append, be32_length]
    omega
  rw [dumpsInt_eq _ _ (by omega), if_pos hfit, wordAt_be32, List.length_append, be32_length]

/-- A number behind a payload that ends with it. -/
theorem dumpsInt_last (pre : Str) (v : UInt32) (hlen : (pre ++ be32 v).length < 2 ^ 31) :
    dumpsInt (pre ++ be32 v) (Int32.ofNat pre.length) =
      .ok (v.toInt32, Int32.ofNat (pre ++ be32 v).length) := by
  have h := dumpsInt_pushBack pre [] v (by rwa [List.append_nil])
  rwa [List.append_nil] at h

/-- **`MessageSendJudge::loads` inverts `dumps`.** -/
theorem loads_dumps_send (m : MessageSendJudge) (hlen : m.dumps.length < 2 ^ 31) :
    MessageSendJudge.loads m.dumps = .ok (m, Int32.ofNat m.dumps.length) := by
  have hdumps : m.dumps = counted m.key ++ (counted m.code ++ (counted m.language ++
      (counted m.pid ++ (be32 m.timeLimit.toUInt32 ++ be32 m.memoryLimit.toUInt32)))) := by
    simp only [MessageSendJudge.dumps, appendMessge_eq, MessageBuffer.pushBack, List.append_assoc]
  have hkey := dumpsString_counted m.dumps [] m.key _ hlen (by rw [hdumps]; rfl)
  have hcode := dumpsString_counted m.dumps ([] ++ counted m.key) m.code _ hlen
    (by rw [hdumps]; rfl)
  have hlanguage := dumpsString_counted m.dumps ([] ++ counted m.key ++ counted m.code)
    m.language _ hlen (by rw [hdumps, List.append_assoc]; rfl)
  have hpid := dumpsString_counted m.dumps
    ([] ++ counted m.key ++ counted m.code ++ counted m.language) m.pid _ hlen
    (by rw [hdumps, List.append_assoc, List.append_assoc]; rfl)
  -- the two numbers
  generalize hpre : [] ++ counted m.key ++ counted m.code ++ counted m.language ++
    counted m.pid = pre at hpid
  have hnumbers : m.dumps =
      pre ++ (be32 m.timeLimit.toUInt32 ++ be32 m.memoryLimit.toUInt32) := by
    rw [hdumps, ← hpre]
    simp only [List.nil_append, List.append_assoc]
  have htime := dumpsInt_pushBack pre (be32 m.memoryLimit.toUInt32) m.timeLimit.toUInt32
    (by rw [← hnumbers]; exact hlen)
  have hmemory := dumpsInt_last (pre ++ be32 m.timeLimit.toUInt32) m.memoryLimit.toUInt32
    (by rw [List.append_assoc, ← hnumbers]; exact hlen)
  rw [← hnumbers, Int32.toInt32_toUInt32] at htime
  rw [List.append_assoc, ← hnumbers, Int32.toInt32_toUInt32] at hmemory
  exact bind_ok_iff.mpr ⟨_, hkey, bind_ok_iff.mpr ⟨_, hcode, bind_ok_iff.mpr ⟨_, hlanguage,
    bind_ok_iff.mpr ⟨_, hpid, bind_ok_iff.mpr ⟨_, htime, bind_ok_iff.mpr ⟨_, hmemory, rfl⟩⟩⟩⟩⟩⟩

/-- **Both decoders invert `dumps`**, and leave the cursor behind the last byte. -/
theorem send_round_trip (m : MessageSendJudge) (hlen : m.dumps.length < 2 ^ 31) :
    (∃ cur : Int32, MessageSendJudge.loads (MessageBuffer.filled m.dumps).toStr = .ok (m, cur) ∧
      cur.toInt = m.dumps.length) ∧
    (∃ b : MessageBuffer, MessageSendJudge.loadsBuffer (.filled m.dumps) = .ok (m, b) ∧
      b.buff = m.dumps ∧ b.cur.toInt = m.dumps.length) := by
  have hloads := loads_dumps_send m hlen
  refine ⟨⟨_, hloads, cursor_toInt _ hlen⟩, ⟨⟨m.dumps, Int32.ofNat m.dumps.length⟩, ?_, rfl,
    cursor_toInt _ hlen⟩⟩
  rw [loadsBuffer_eq, hloads]
  rfl

/-- A message with a zero byte, the byte `255` and a negative limit. -/
theorem send_round_trip_bytes :
    (∃ cur : Int32, MessageSendJudge.loads (MessageBuffer.filled
      (MessageSendJudge.dumps ⟨[0, 255], [], ascii "cpp", ascii "1000", -1, 128⟩)).toStr =
        .ok (⟨[0, 255], [], ascii "cpp", ascii "1000", -1, 128⟩, cur) ∧
      cur.toInt =
        (MessageSendJudge.dumps ⟨[0, 255], [], ascii "cpp", ascii "1000", -1, 128⟩).length) ∧
    (∃ b : MessageBuffer, MessageSendJudge.loadsBuffer (.filled
      (MessageSendJudge.dumps ⟨[0, 255], [], ascii "cpp", ascii "1000", -1, 128⟩)) =
        .ok (⟨[0, 255], [], ascii "cpp", ascii "1000", -1, 128⟩, b) ∧
      b.buff = MessageSendJudge.dumps ⟨[0, 255], [], ascii "cpp", ascii "1000", -1, 128⟩ ∧
      b.cur.toInt =
        (MessageSendJudge.dumps ⟨[0, 255], [], ascii "cpp", ascii "1000", -1, 128⟩).length) :=
  send_round_trip ⟨[0, 255], [], ascii "cpp", ascii "1000", -1, 128⟩ (by decide)

/-! ### Results -/

/-- The two halves of a `long` make it up again. -/
theorem ofLongHalves_longHalves (x : Int64) :
    ofLongHalves (longHalves x).1 (longHalves x).2 = x := by
  have hlt := x.toUInt64.toNat_lt
  have hsum : (longHalves x).2.toNat * 2 ^ 32 + (longHalves x).1.toNat = x.toUInt64.toNat := by
    simp only [longHalves, UInt32.toNat_ofNat']
    omega
  rw [ofLongHalves, hsum, UInt64.ofNat_toNat, Int64.toInt64_toUInt64]

/-- The words of one result, in the order in which they are pushed. -/
def Result.words (r : Result) : List UInt32 :=
  [r.cpuTime.toUInt32, r.realTime.toUInt32, (longHalves r.memory).1, (longHalves r.memory).2,
    r.signal.toUInt32, r.exitCode.toUInt32, r.error.toUInt32, r.result.toUInt32]

theorem Result.dumps_eq (r : Result) : r.dumps = r.words.flatMap be32 := by
  simp only [dumps, words, MessageBuffer.pushBack, List.flatMap_cons, List.flatMap_nil,
    List.append_nil, List.append_assoc]

theorem flatMap_be32_length (ws : List UInt32) : (ws.flatMap be32).length = 4 * ws.length := by
  induction ws with
  | nil => rfl
  | cons w ws ih =>
    rw [List.flatMap_cons, List.length_append, be32_length, ih, List.length_cons]
    omega

/-- One of several numbers in the middle of a payload. -/
theorem dumpsInt_word (pre t : Str) (ws : List UInt32) (k : ℕ) (hk : k < ws.length)
    (hlen : (pre ++ (ws.flatMap be32 ++ t)).length < 2 ^ 31) :
    dumpsInt (pre ++ (ws.flatMap be32 ++ t)) (Int32.ofNat (pre.length + 4 * k)) =
      .ok (ws[k].toInt32, Int32.ofNat (pre.length + 4 * (k + 1))) := by
  have hwords : ws.flatMap be32 =
      (ws.take k).flatMap be32 ++ (be32 ws[k] ++ (ws.drop (k + 1)).flatMap be32) := by
    rw [← List.flatMap_cons, ← List.flatMap_append, List.getElem_cons_drop, List.take_append_drop]
  have hpayload : pre ++ (ws.flatMap be32 ++ t) = (pre ++ (ws.take k).flatMap be32) ++
      (be32 ws[k] ++ ((ws.drop (k + 1)).flatMap be32 ++ t)) := by
    rw [hwords]
    simp only [List.append_assoc]
  have hcursor : (pre ++ (ws.take k).flatMap be32).length = pre.length + 4 * k := by
    rw [List.length_append, flatMap_be32_length, List.length_take, Nat.min_eq_left (by omega)]
  rw [hpayload] at hlen ⊢
  rw [← hcursor, dumpsInt_pushBack _ _ _ hlen, List.length_append, hcursor, be32_length]
  rfl

/-- One result in the middle of a payload. -/
theorem loads_dumps_oneResult (pre t : Str) (r : Result)
    (hlen : (pre ++ (r.dumps ++ t)).length < 2 ^ 31) :
    Result.loads (pre ++ (r.dumps ++ t)) (Int32.ofNat pre.length) =
      .ok (r, Int32.ofNat (pre ++ r.dumps).length) := by
  have hend : (pre ++ r.dumps).length = pre.length + 32 := by
    rw [List.length_append, r.dumps_eq, flatMap_be32_length]
    rfl
  rw [hend]
  rw [r.dumps_eq] at hlen ⊢
  have hword := fun k hk => dumpsInt_word pre t r.words k hk hlen
  have hcount : r.words.length = 8 := rfl
  have hmemory : ofLongHalves (longHalves r.memory).1.toInt32.toUInt32
      (longHalves r.memory).2.toInt32.toUInt32 = r.memory := by
    rw [UInt32.toUInt32_toInt32, UInt32.toUInt32_toInt32, ofLongHalves_longHalves]
  refine bind_ok_iff.mpr ⟨_, hword 0 (by omega), bind_ok_iff.mpr ⟨_, hword 1 (by omega),
    bind_ok_iff.mpr ⟨_, hword 2 (by omega), bind_ok_iff.mpr ⟨_, hword 3 (by omega),
    bind_ok_iff.mpr ⟨_, hword 4 (by omega), bind_ok_iff.mpr ⟨_, hword 5 (by omega),
    bind_ok_iff.mpr ⟨_, hword 6 (by omega), bind_ok_iff.mpr ⟨_, hword 7 (by omega), ?_⟩⟩⟩⟩⟩⟩⟩⟩
  simp only [Result.words, List.getElem_cons_zero, List.getElem_cons_succ,
    Int32.toInt32_toUInt32, hmemory]
  rfl

/-- The results behind each other. -/
theorem loadsResults_dumps (rs : List Result) : ∀ pre : Str,
    (pre ++ rs.flatMap Result.dumps).length < 2 ^ 31 →
    loadsResults (pre ++ rs.flatMap Result.dumps) rs.length (Int32.ofNat pre.length) =
      .ok (rs, Int32.ofNat (pre ++ rs.flatMap Result.dumps).length) := by
  induction rs with
  | nil =>
    intro pre _
    rw [List.flatMap_nil, List.append_nil]
    rfl
  | cons r rs ih =>
    intro pre hlen
    rw [List.flatMap_cons] at hlen ⊢
    have hone := loads_dumps_oneResult pre (rs.flatMap Result.dumps) r hlen
    rw [← List.append_assoc] at hlen hone ⊢
    exact bind_ok_iff.mpr ⟨_, hone, bind_ok_iff.mpr ⟨_, ih (pre ++ r.dumps) hlen, rfl⟩⟩

theorem flatMap_dumps_length (rs : List Result) :
    (rs.flatMap Result.dumps).length = 32 * rs.length := by
  induction rs with
  | nil => rfl
  | cons r rs ih =>
    rw [List.flatMap_cons, List.length_append, ih, r.dumps_eq, flatMap_be32_length,
      List.length_cons]
    show 4 * 8 + 32 * rs.length = 32 * (rs.length + 1)
    omega

/-- **`MessageResultJudge::loads` inverts `dumps`.** -/
theorem loads_dumps_result (m : MessageResultJudge) (hlen : m.dumps.length < 2 ^ 31) :
    MessageResultJudge.loads m.dumps = .ok (m, Int32.ofNat m.dumps.length) := by
  generalize hsize : UInt32.ofNat m.results.length = size
  have hdumps : m.dumps = be32 m.code.toUInt32 ++ (counted m.key ++ (counted m.msg ++
      (be32 size ++ m.results.flatMap Result.dumps))) := by
    simp only [MessageResultJudge.dumps, appendMessge_eq, MessageBuffer.pushBack,
      List.append_assoc, hsize]
  have hcount : size.toInt32.toInt.toNat = m.results.length := by
    have hlength := congrArg List.length hdumps
    simp only [List.length_append, be32_length, flatMap_dumps_length] at hlength
    have hnat : size.toNat = m.results.length := by
      rw [← hsize, UInt32.toNat_ofNat', Nat.mod_eq_of_lt (by omega)]
    rw [size_toNat, if_neg (by omega), hnat]
  have hcode := dumpsInt_pushBack [] _ m.code.toUInt32
    (by rw [List.nil_append, ← hdumps]; exact hlen)
  have hkey := dumpsString_counted m.dumps ([] ++ be32 m.code.toUInt32) m.key _ hlen
    (by rw [hdumps]; rfl)
  have hmsg := dumpsString_counted m.dumps ([] ++ be32 m.code.toUInt32 ++ counted m.key) m.msg _
    hlen (by rw [hdumps, List.append_assoc]; rfl)
  -- the number of results and the results
  generalize hpre : [] ++ be32 m.code.toUInt32 ++ counted m.key ++ counted m.msg = pre at hmsg
  have hrest : m.dumps = pre ++ (be32 size ++ m.results.flatMap Result.dumps) := by
    rw [hdumps, ← hpre]
    simp only [List.nil_append, List.append_assoc]
  have hnumber := dumpsInt_pushBack pre (m.results.flatMap Result.dumps) size
    (by rw [← hrest]; exact hlen)
  have hresults := loadsResults_dumps m.results (pre ++ be32 size)
    (by rw [List.append_assoc, ← hrest]; exact hlen)
  rw [← hrest] at hnumber
  rw [List.append_assoc, ← hrest, ← hcount] at hresults
  rw [List.nil_append, ← hdumps, Int32.toInt32_toUInt32] at hcode
  exact bind_ok_iff.mpr ⟨_, hcode, bind_ok_iff.mpr ⟨_, hkey, bind_ok_iff.mpr ⟨_, hmsg,
    bind_ok_iff.mpr ⟨_, hnumber, bind_ok_iff.mpr ⟨_, hresults, rfl⟩⟩⟩⟩⟩

/-- **A decoded message is the one that was written**, and the cursor is behind the last byte. -/
theorem result_round_trip (m : MessageResultJudge) (hlen : m.dumps.length < 2 ^ 31) :
    ∃ cur : Int32, MessageResultJudge.loads (MessageBuffer.filled m.dumps).toStr = .ok (m, cur) ∧
      cur.toInt = m.dumps.length :=
  ⟨_, loads_dumps_result m hlen, cursor_toInt _ hlen⟩

/-- A message with one result that used more than four gigabytes and ended with a signal. -/
theorem result_round_trip_large : ∃ cur : Int32, MessageResultJudge.loads
    (MessageBuffer.filled (MessageResultJudge.dumps
      ⟨-12, ascii "7", [0, 255], [⟨1, 2, 8589934597, 11, -1, 0, 4⟩]⟩)).toStr =
        .ok (⟨-12, ascii "7", [0, 255], [⟨1, 2, 8589934597, 11, -1, 0, 4⟩]⟩, cur) ∧
      cur.toInt = (MessageResultJudge.dumps
        ⟨-12, ascii "7", [0, 255], [⟨1, 2, 8589934597, 11, -1, 0, 4⟩]⟩).length :=
  result_round_trip ⟨-12, ascii "7", [0, 255], [⟨1, 2, 8589934597, 11, -1, 0, 4⟩]⟩ (by decide)

end Rojcpp.Judge
