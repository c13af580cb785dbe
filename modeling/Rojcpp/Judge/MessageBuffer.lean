import Rojcpp.Judge.Result
import Rojcpp.Lib.Framing

/-!
# Messages as bytes

`MessageBuffer` writes numbers in network order and strings with their length in front;
`dumpsMessageFromStr` reads them back at an `int` cursor, without looking at the size of what it
reads from.  Decoding is modelled on the bytes that were received: an access to any other byte is
the fault `outside`, and a string whose end lies before its beginning, because its length wrapped
the cursor around, is the exception `lengthError` of the string constructor.

`loads_send_iff` and `loads_result_iff` say which payloads decode without a fault.
-/

namespace Rojcpp.Judge

open Rojcpp.Lib

/-! ### Writing -/

/-- `push_back(uint32_t)`. -/
def MessageBuffer.pushBack (v : UInt32) : Str := be32 v

/-- `appendMessge`. -/
def MessageBuffer.appendMessge (msg : Str) : Str :=
  MessageBuffer.pushBack (UInt32.ofNat msg.length) ++ msg

/-- `MessageSendJudge::dumps`. -/
def MessageSendJudge.dumps (m : MessageSendJudge) : Str :=
  MessageBuffer.appendMessge m.key ++ MessageBuffer.appendMessge m.code ++
    MessageBuffer.appendMessge m.language ++ MessageBuffer.appendMessge m.pid ++
    MessageBuffer.pushBack m.timeLimit.toUInt32 ++ MessageBuffer.pushBack m.memoryLimit.toUInt32

/-- The two halves of a `long`, the low one first in memory. -/
def longHalves (x : Int64) : UInt32 × UInt32 :=
  (UInt32.ofNat x.toUInt64.toNat, UInt32.ofNat (x.toUInt64.toNat / 2 ^ 32))

/-- The `long` of two halves. -/
def ofLongHalves (lo hi : UInt32) : Int64 :=
  (UInt64.ofNat (hi.toNat * 2 ^ 32 + lo.toNat)).toInt64

/-- One round of the loop of `MessageResultJudge::dumps`. -/
def Result.dumps (r : Result) : Str :=
  MessageBuffer.pushBack r.cpuTime.toUInt32 ++ MessageBuffer.pushBack r.realTime.toUInt32 ++
    MessageBuffer.pushBack (longHalves r.memory).1 ++
    MessageBuffer.pushBack (longHalves r.memory).2 ++
    MessageBuffer.pushBack r.signal.toUInt32 ++ MessageBuffer.pushBack r.exitCode.toUInt32 ++
    MessageBuffer.pushBack r.error.toUInt32 ++ MessageBuffer.pushBack r.result.toUInt32

/-- `MessageResultJudge::dumps`. -/
def MessageResultJudge.dumps (m : MessageResultJudge) : Str :=
  MessageBuffer.pushBack m.code.toUInt32 ++ MessageBuffer.appendMessge m.key ++
    MessageBuffer.appendMessge m.msg ++
    MessageBuffer.pushBack (UInt32.ofNat m.results.length) ++ m.results.flatMap Result.dumps

/-! ### Reading -/

/-- What goes wrong while a payload is decoded. -/
inductive Fault where
  | outside
  | lengthError
  deriving DecidableEq, Repr

/-- `getInt` at an offset. -/
def getInt (p : Str) (pos : ℤ) : Except Fault UInt32 :=
  if 0 ≤ pos then
    match readBe32 (p.drop pos.toNat) with
    | some (v, _) => .ok v
    | none => .error .outside
  else .error .outside

/-- `dumpsMessageFromStr<int>`: the number and the cursor behind it. -/
def dumpsInt (p : Str) (cur : Int32) : Except Fault (Int32 × Int32) := do
  let v ← getInt p cur.toInt
  return (v.toInt32, cur + 4)

/-- `dumpsMessageFromStr<std::string>`: the string and the cursor behind it. -/
def dumpsString (p : Str) (cur : Int32) : Except Fault (Str × Int32) := do
  let size ← getInt p cur.toInt
  let old := cur + 4
  let cur' := cur + (4 + size).toInt32
  if cur'.toInt < old.toInt then throw .lengthError
  else if old.toInt < 0 ∨ p.length < cur'.toInt then throw .outside
  else return ((p.drop old.toInt.toNat).take (cur'.toInt - old.toInt).toNat, cur')

/-- `MessageSendJudge::loads`: the message and where the cursor ends. -/
def MessageSendJudge.loads (p : Str) : Except Fault (MessageSendJudge × Int32) := do
  let key ← dumpsString p 0
  let code ← dumpsString p key.2
  let language ← dumpsString p code.2
  let pid ← dumpsString p language.2
  let timeLimit ← dumpsInt p pid.2
  let memoryLimit ← dumpsInt p timeLimit.2
  return (⟨key.1, code.1, language.1, pid.1, timeLimit.1, memoryLimit.1⟩, memoryLimit.2)

/-- One round of the loop of `MessageResultJudge::loads`. -/
def Result.loads (p : Str) (cur : Int32) : Except Fault (Result × Int32) := do
  let cpuTime ← dumpsInt p cur
  let realTime ← dumpsInt p cpuTime.2
  let v1 ← dumpsInt p realTime.2
  let v2 ← dumpsInt p v1.2
  let signal ← dumpsInt p v2.2
  let exitCode ← dumpsInt p signal.2
  let error ← dumpsInt p exitCode.2
  let result ← dumpsInt p error.2
  return (⟨cpuTime.1, realTime.1, ofLongHalves v1.1.toUInt32 v2.1.toUInt32, signal.1, exitCode.1,
    error.1, result.1⟩, result.2)

/-- The loop of `MessageResultJudge::loads` over the results still to come. -/
def loadsResults (p : Str) : ℕ → Int32 → Except Fault (List Result × Int32)
  | 0, cur => .ok ([], cur)
  | n + 1, cur => do
    let r ← Result.loads p cur
    let rs ← loadsResults p n r.2
    return (r.1 :: rs.1, rs.2)

/-- `MessageResultJudge::loads` into a fresh message. -/
def MessageResultJudge.loads (p : Str) : Except Fault (MessageResultJudge × Int32) := do
  let code ← dumpsInt p 0
  let key ← dumpsString p code.2
  let msg ← dumpsString p key.2
  let size ← dumpsInt p msg.2
  let results ← loadsResults p size.1.toInt.toNat size.2
  return (⟨code.1, key.1, msg.1, results.1⟩, results.2)

/-! ### Cursors -/

theorem cursor_toInt (n : ℕ) (hn : n < 2 ^ 31) : (Int32.ofNat n).toInt = n :=
  Int32.toInt_ofNat_of_lt hn

theorem cursor_add (n k : ℕ) : Int32.ofNat n + Int32.ofNat k = Int32.ofNat (n + k) :=
  (Int32.ofNat_add n k).symm

/-- The word at an offset of a payload that is long enough. -/
def wordAt (p : Str) (n : ℕ) : UInt32 := ((readBe32 (p.drop n)).map Prod.fst).getD 0

theorem getInt_eq (p : Str) (n : ℕ) :
    getInt p n = if n + 4 ≤ p.length then .ok (wordAt p n) else .error .outside := by
  rw [getInt, if_pos (by omega), Int.toNat_natCast, wordAt]
  cases h : readBe32 (p.drop n) with
  | none =>
    have hlen := readBe32_eq_none.mp h
    rw [List.length_drop] at hlen
    rw [if_neg (by omega)]
  | some r =>
    have hlen := congrArg List.length (readBe32_eq_some.mp h)
    rw [List.length_drop, List.length_append, be32_length] at hlen
    rw [if_pos (by omega)]
    rfl

/-- Reading a number at a cursor inside the payload. -/
theorem dumpsInt_eq (p : Str) (n : ℕ) (hn : n < 2 ^ 31) :
    dumpsInt p (Int32.ofNat n) =
      if n + 4 ≤ p.length then .ok ((wordAt p n).toInt32, Int32.ofNat (n + 4))
      else .error .outside := by
  rw [dumpsInt, cursor_toInt n hn, getInt_eq, ← cursor_add]
  split <;> rfl

/-- The `int` of a cursor that has passed the end of `int`. -/
theorem cursor_wrap (n : ℕ) (h : 2 ^ 31 ≤ n) (hn : n < 2 ^ 31 + 2 ^ 32) :
    (Int32.ofNat n).toInt = n - 2 ^ 32 := by
  rw [Int32.toInt_ofNat', show Int32.size = 2 ^ 32 from rfl, Int.bmod_def]
  split <;> omega

theorem size_toInt32 (v : UInt32) : (4 + v).toInt32 = Int32.ofNat (4 + v.toNat) := by
  rw [← Int32.toBitVec_inj]
  simp

/-- The word and the bytes behind it at an offset of a payload that is long enough. -/
theorem readBe32_drop (p : Str) (n : ℕ) (h : n + 4 ≤ p.length) :
    readBe32 (p.drop n) = some (wordAt p n, p.drop (n + 4)) := by
  cases hread : readBe32 (p.drop n) with
  | none =>
    have hlen := readBe32_eq_none.mp hread
    rw [List.length_drop] at hlen
    omega
  | some r =>
    have hrest : p.drop (n + 4) = r.2 := by
      rw [← List.drop_drop, readBe32_eq_some.mp hread, List.drop_left' (be32_length _)]
    rw [wordAt, hread, hrest]
    rfl

/-- The end of a string, as the cursor behind it: past the end of `int` it lies before the
beginning. -/
theorem dumpsString_eq (p : Str) (n : ℕ) (hn : n ≤ p.length) (hp : p.length < 2 ^ 31) :
    dumpsString p (Int32.ofNat n) =
      if n + 4 ≤ p.length then
        if n + (4 + (wordAt p n).toNat) ≤ p.length then
          .ok ((p.drop (n + 4)).take (wordAt p n).toNat,
            Int32.ofNat (n + (4 + (wordAt p n).toNat)))
        else if n + (4 + (wordAt p n).toNat) < 2 ^ 31 then .error .outside
        else .error .lengthError
      else .error .outside := by
  have hv := (wordAt p n).toNat_lt
  have hfour : (4 : Int32) = Int32.ofNat 4 := rfl
  rw [dumpsString, cursor_toInt n (by omega), getInt_eq]
  by_cases h4 : n + 4 ≤ p.length
  swap
  · rw [if_neg h4, if_neg h4]
    rfl
  rw [if_pos h4, if_pos h4]
  show (if _ then _ else if _ then _ else _) = _
  rw [size_toInt32, hfour, cursor_add, cursor_add, cursor_toInt (n + 4) (by omega)]
  by_cases hend : n + (4 + (wordAt p n).toNat) < 2 ^ 31
  · rw [cursor_toInt _ hend, if_neg (by omega)]
    by_cases hfit : n + (4 + (wordAt p n).toNat) ≤ p.length
    · rw [if_neg (by omega), if_pos hfit]
      rw [show ((n + 4 : ℕ) : ℤ).toNat = n + 4 from Int.toNat_natCast _,
        show (((n + (4 + (wordAt p n).toNat) : ℕ) : ℤ) - ((n + 4 : ℕ) : ℤ)).toNat =
          (wordAt p n).toNat by omega]
      rfl
    · rw [if_pos (by omega), if_neg hfit, if_pos hend]
      rfl
  · rw [cursor_wrap _ (by omega) (by omega), if_pos (by omega), if_neg (by omega), if_neg hend]
    rfl

/-- Reading a string at a cursor inside the payload: it is taken from the bytes there. -/
theorem dumpsString_eq_ok (p : Str) (n : ℕ) (hn : n ≤ p.length) (hp : p.length < 2 ^ 31)
    (r : Str × Int32) :
    dumpsString p (Int32.ofNat n) = .ok r ↔
      ∃ x t, takeCounted (p.drop n) = some (x, t) ∧
        r = (x, Int32.ofNat (n + (4 + x.length))) := by
  rw [dumpsString_eq p n hn hp, takeCounted]
  by_cases h4 : n + 4 ≤ p.length
  · have hlen : (p.drop (n + 4)).length = p.length - (n + 4) := List.length_drop
    rw [if_pos h4, readBe32_drop p n h4]
    simp only [hlen]
    by_cases hfit : n + (4 + (wordAt p n).toNat) ≤ p.length
    · rw [if_pos hfit, if_pos (by omega)]
      have htake : ((p.drop (n + 4)).take (wordAt p n).toNat).length = (wordAt p n).toNat := by
        rw [List.length_take, hlen]
        omega
      constructor
      · intro h
        cases h
        exact ⟨_, _, rfl, by rw [htake]⟩
      · rintro ⟨x, t, h, rfl⟩
        cases h
        rw [htake]
    · have hover : ¬ (wordAt p n).toNat ≤ p.length - (n + 4) := by omega
      rw [if_neg hfit, if_neg hover]
      constructor
      · intro h
        split at h <;> cases h
      · rintro ⟨x, t, h, -⟩
        cases h
  · have hnone : readBe32 (p.drop n) = none := by
      rw [readBe32_eq_none, List.length_drop]
      omega
    rw [if_neg h4, hnone]
    constructor
    · intro h
      cases h
    · rintro ⟨x, t, h, -⟩
      cases h

/-! ### Which payloads decode -/

/-- A payload that `MessageSendJudge::loads` can decode: four counted strings and two numbers,
with anything behind them. -/
def WellFormedSend (p : Str) : Prop :=
  ∃ key code language pid t, p = counted key ++ counted code ++ counted language ++ counted pid ++ t
    ∧ 8 ≤ t.length

/-- A payload that `MessageResultJudge::loads` can decode: a number, two counted strings, the
number of results, and the results, unless that number is negative as an `int`. -/
def WellFormedResult (p : Str) : Prop :=
  ∃ code key msg size t, p = be32 code ++ counted key ++ counted msg ++ be32 size ++ t ∧
    (2 ^ 31 ≤ size.toNat ∨ 32 * size.toNat ≤ t.length)

/-- A string in the middle of a payload. -/
theorem dumpsString_counted (p pre x t : Str) (hp : p.length < 2 ^ 31)
    (h : p = pre ++ (counted x ++ t)) :
    dumpsString p (Int32.ofNat pre.length) =
      .ok (x, Int32.ofNat (pre ++ counted x).length) := by
  have hlen := congrArg List.length h
  rw [List.length_append, List.length_append, counted_length] at hlen
  rw [dumpsString_eq_ok p _ (by omega) hp]
  refine ⟨x, t, ?_, ?_⟩
  · rw [h, List.drop_left, takeCounted_counted x t (by omega)]
  · rw [List.length_append, counted_length]

/-- A string that could be read stands at the cursor. -/
theorem dumpsString_ok (p pre u : Str) (hp : p.length < 2 ^ 31) (h : p = pre ++ u)
    (r : Str × Int32) (hr : dumpsString p (Int32.ofNat pre.length) = .ok r) :
    ∃ t, u = counted r.1 ++ t ∧ p = (pre ++ counted r.1) ++ t ∧
      r.2 = Int32.ofNat (pre ++ counted r.1).length := by
  have hlen := congrArg List.length h
  rw [List.length_append] at hlen
  obtain ⟨x, t, htake, rfl⟩ := (dumpsString_eq_ok p _ (by omega) hp r).mp hr
  rw [h, List.drop_left] at htake
  have hu := (takeCounted_eq_some.mp htake).1
  refine ⟨t, hu, ?_, ?_⟩
  · rw [h, hu, List.append_assoc]
  · rw [List.length_append, counted_length]

/-- `MessageSendJudge::loads` decodes exactly the well-formed payloads. -/
theorem loads_send_iff (p : Str) (hp : p.length < 2 ^ 31) :
    (∃ m, MessageSendJudge.loads p = .ok m) ↔ WellFormedSend p := by
  constructor
  · rintro ⟨m, hm⟩
    obtain ⟨key, hkey, hm⟩ := bind_ok_iff.mp hm
    obtain ⟨code, hcode, hm⟩ := bind_ok_iff.mp hm
    obtain ⟨language, hlanguage, hm⟩ := bind_ok_iff.mp hm
    obtain ⟨pid, hpid, hm⟩ := bind_ok_iff.mp hm
    obtain ⟨timeLimit, htime, hm⟩ := bind_ok_iff.mp hm
    obtain ⟨memoryLimit, hmemory, -⟩ := bind_ok_iff.mp hm
    obtain ⟨t₁, -, h₁, hc₁⟩ := dumpsString_ok p [] p hp rfl key hkey
    rw [hc₁] at hcode
    obtain ⟨t₂, -, h₂, hc₂⟩ := dumpsString_ok p _ t₁ hp h₁ code hcode
    rw [hc₂] at hlanguage
    obtain ⟨t₃, -, h₃, hc₃⟩ := dumpsString_ok p _ t₂ hp h₂ language hlanguage
    rw [hc₃] at hpid
    obtain ⟨t₄, -, h₄, hc₄⟩ := dumpsString_ok p _ t₃ hp h₃ pid hpid
    have hlen := congrArg List.length h₄
    rw [List.length_append] at hlen
    rw [hc₄, dumpsInt_eq p _ (by omega)] at htime
    split at htime
    swap
    · cases htime
    cases htime
    rw [dumpsInt_eq p _ (by omega)] at hmemory
    split at hmemory
    swap
    · cases hmemory
    exact ⟨key.1, code.1, language.1, pid.1, t₄, h₄, by omega⟩
  · rintro ⟨key, code, language, pid, t, h, ht⟩
    have hlen := congrArg List.length h
    rw [List.length_append] at hlen
    have h₁ := dumpsString_counted p [] key _ hp (by simpa [List.append_assoc] using h)
    have h₂ := dumpsString_counted p ([] ++ counted key) code _ hp
      (by simpa [List.append_assoc] using h)
    have h₃ := dumpsString_counted p ([] ++ counted key ++ counted code) language _ hp
      (by simpa [List.append_assoc] using h)
    have h₄ := dumpsString_counted p ([] ++ counted key ++ counted code ++ counted language) pid t
      hp (by simpa [List.append_assoc] using h)
    simp only [List.nil_append] at h₁ h₂ h₃ h₄
    have h₅ := dumpsInt_eq p (counted key ++ counted code ++ counted language ++
      counted pid).length (by omega)
    have h₆ := dumpsInt_eq p ((counted key ++ counted code ++ counted language ++
      counted pid).length + 4) (by omega)
    rw [if_pos (by omega)] at h₅ h₆
    exact ⟨_, bind_ok_iff.mpr ⟨_, h₁, bind_ok_iff.mpr ⟨_, h₂, bind_ok_iff.mpr ⟨_, h₃,
      bind_ok_iff.mpr ⟨_, h₄, bind_ok_iff.mpr ⟨_, h₅, bind_ok_iff.mpr ⟨_, h₆, rfl⟩⟩⟩⟩⟩⟩⟩

/-! ### Result messages -/

/-- Reading a number and going on. -/
theorem dumpsInt_bind_ok {β : Type} (p : Str) (n : ℕ) (hn : n < 2 ^ 31)
    (f : Int32 × Int32 → Except Fault β) (b : β) :
    dumpsInt p (Int32.ofNat n) >>= f = .ok b ↔
      n + 4 ≤ p.length ∧ f ((wordAt p n).toInt32, Int32.ofNat (n + 4)) = .ok b := by
  rw [dumpsInt_eq p n hn]
  by_cases h : n + 4 ≤ p.length
  · rw [if_pos h]
    exact ⟨fun hf => ⟨h, hf⟩, fun hf => hf.2⟩
  · rw [if_neg h]
    constructor
    · intro hf
      cases hf
    · intro hf
      exact absurd hf.1 h

/-- One result takes 32 bytes. -/
theorem loads_oneResult (p : Str) (n : ℕ) (hn : n ≤ p.length) (hp : p.length < 2 ^ 31) :
    (n + 32 ≤ p.length → ∃ r, Result.loads p (Int32.ofNat n) = .ok (r, Int32.ofNat (n + 32))) ∧
      ∀ r, Result.loads p (Int32.ofNat n) = .ok r →
        n + 32 ≤ p.length ∧ r.2 = Int32.ofNat (n + 32) := by
  constructor
  · intro h
    have hint : ∀ k, k < 8 → dumpsInt p (Int32.ofNat (n + 4 * k)) =
        .ok ((wordAt p (n + 4 * k)).toInt32, Int32.ofNat (n + 4 * (k + 1))) := by
      intro k hk
      rw [dumpsInt_eq p _ (by omega), if_pos (by omega)]
      rfl
    exact ⟨_, bind_ok_iff.mpr ⟨_, hint 0 (by omega), bind_ok_iff.mpr ⟨_, hint 1 (by omega),
      bind_ok_iff.mpr ⟨_, hint 2 (by omega), bind_ok_iff.mpr ⟨_, hint 3 (by omega),
      bind_ok_iff.mpr ⟨_, hint 4 (by omega), bind_ok_iff.mpr ⟨_, hint 5 (by omega),
      bind_ok_iff.mpr ⟨_, hint 6 (by omega), bind_ok_iff.mpr ⟨_, hint 7 (by omega),
      rfl⟩⟩⟩⟩⟩⟩⟩⟩⟩
  · intro r hr
    rw [Result.loads, dumpsInt_bind_ok p n (by omega)] at hr
    obtain ⟨h₁, hr⟩ := hr
    rw [dumpsInt_bind_ok p _ (by omega)] at hr
    obtain ⟨h₂, hr⟩ := hr
    rw [dumpsInt_bind_ok p _ (by omega)] at hr
    obtain ⟨h₃, hr⟩ := hr
    rw [dumpsInt_bind_ok p _ (by omega)] at hr
    obtain ⟨h₄, hr⟩ := hr
    rw [dumpsInt_bind_ok p _ (by omega)] at hr
    obtain ⟨h₅, hr⟩ := hr
    rw [dumpsInt_bind_ok p _ (by omega)] at hr
    obtain ⟨h₆, hr⟩ := hr
    rw [dumpsInt_bind_ok p _ (by omega)] at hr
    obtain ⟨h₇, hr⟩ := hr
    rw [dumpsInt_bind_ok p _ (by omega)] at hr
    obtain ⟨h₈, hr⟩ := hr
    cases hr
    exact ⟨h₈, rfl⟩

/-- The results that are announced have to be there. -/
theorem loadsResults_iff (p : Str) (hp : p.length < 2 ^ 31) (k : ℕ) : ∀ n, n ≤ p.length →
    ((∃ rs, loadsResults p k (Int32.ofNat n) = .ok rs) ↔ n + 32 * k ≤ p.length) := by
  induction k with
  | zero =>
    intro n hn
    exact ⟨fun _ => hn, fun _ => ⟨_, rfl⟩⟩
  | succ k ih =>
    intro n hn
    obtain ⟨hok, hback⟩ := loads_oneResult p n hn hp
    constructor
    · rintro ⟨rs, h⟩
      obtain ⟨r, hr, h⟩ := bind_ok_iff.mp h
      obtain ⟨rs', hrs', -⟩ := bind_ok_iff.mp h
      obtain ⟨hlen, hc⟩ := hback r hr
      rw [hc] at hrs'
      have hrest := (ih (n + 32) hlen).mp ⟨rs', hrs'⟩
      omega
    · intro h
      obtain ⟨r, hr⟩ := hok (by omega)
      obtain ⟨rs, hrs⟩ := (ih (n + 32) (by omega)).mpr (by omega)
      exact ⟨_, bind_ok_iff.mpr ⟨_, hr, bind_ok_iff.mpr ⟨_, hrs, rfl⟩⟩⟩

/-- The number of rounds of the loop over the results. -/
theorem size_toNat (size : UInt32) :
    size.toInt32.toInt.toNat = if 2 ^ 31 ≤ size.toNat then 0 else size.toNat := by
  have hlt := size.toNat_lt
  have hint : size.toInt32 = Int32.ofNat size.toNat := by
    rw [← UInt32.toInt32_ofNat', UInt32.ofNat_toNat]
  rw [hint]
  split
  · rw [cursor_wrap _ (by omega) (by omega)]
    omega
  · rw [cursor_toInt _ (by omega), Int.toNat_natCast]

/-- The word at the end of a prefix. -/
theorem wordAt_prefix (p pre t : Str) (h : p = pre ++ t) (hn : pre.length + 4 ≤ p.length) :
    t = be32 (wordAt p pre.length) ++ t.drop 4 := by
  have hread := readBe32_eq_some.mp (readBe32_drop p pre.length hn)
  have ht : p.drop pre.length = t := by rw [h, List.drop_left]
  rwa [← List.drop_drop, ht] at hread

/-- A word behind a prefix is the one that is read there. -/
theorem wordAt_be32 (pre t : Str) (v : UInt32) : wordAt (pre ++ (be32 v ++ t)) pre.length = v := by
  rw [wordAt, List.drop_left, readBe32_be32]
  rfl

/-- `MessageResultJudge::loads` decodes exactly the well-formed payloads. -/
theorem loads_result_iff (p : Str) (hp : p.length < 2 ^ 31) :
    (∃ m, MessageResultJudge.loads p = .ok m) ↔ WellFormedResult p := by
  have hzero : (0 : Int32) = Int32.ofNat 0 := rfl
  constructor
  · rintro ⟨m, hm⟩
    rw [MessageResultJudge.loads, hzero, dumpsInt_bind_ok p 0 (by omega)] at hm
    obtain ⟨h4, hm⟩ := hm
    obtain ⟨key, hkey, hm⟩ := bind_ok_iff.mp hm
    obtain ⟨msg, hmsg, hm⟩ := bind_ok_iff.mp hm
    have hcode := wordAt_prefix p [] p rfl h4
    obtain ⟨t₁, -, h₁, hc₁⟩ := dumpsString_ok p _ _ hp hcode key hkey
    rw [hc₁] at hmsg
    obtain ⟨t₂, -, h₂, hc₂⟩ := dumpsString_ok p _ t₁ hp h₁ msg hmsg
    have hlen := congrArg List.length h₂
    rw [List.length_append] at hlen
    rw [hc₂, dumpsInt_bind_ok p _ (by omega)] at hm
    obtain ⟨h8, hm⟩ := hm
    obtain ⟨rs, hrs, -⟩ := bind_ok_iff.mp hm
    have hsize := wordAt_prefix p _ t₂ h₂ h8
    have hcount := (loadsResults_iff p hp _ _ h8).mp ⟨rs, hrs⟩
    rw [size_toNat] at hcount
    refine ⟨wordAt p ([] : Str).length, key.1, msg.1, wordAt p
      (be32 (wordAt p ([] : Str).length) ++ counted key.1 ++ counted msg.1).length, t₂.drop 4,
      ?_, ?_⟩
    · rw [List.append_assoc _ (be32 _), ← hsize]
      exact h₂
    · rw [List.length_drop]
      split at hcount <;> omega
  · rintro ⟨code, key, msg, size, t, h, ht⟩
    have hlen := congrArg List.length h
    simp only [List.length_append, be32_length] at hlen
    have h₀ := dumpsInt_eq p 0 (by omega)
    have h₁ := dumpsString_counted p (be32 code) key _ hp (by simpa [List.append_assoc] using h)
    have h₂ := dumpsString_counted p (be32 code ++ counted key) msg _ hp
      (by simpa [List.append_assoc] using h)
    have h₃ := dumpsInt_eq p (be32 code ++ counted key ++ counted msg).length
      (by simp only [List.length_append, be32_length]; omega)
    rw [if_pos (by omega)] at h₀
    rw [if_pos (by simp only [List.length_append, be32_length]; omega)] at h₃
    have hword : wordAt p (be32 code ++ counted key ++ counted msg).length = size := by
      rw [h, List.append_assoc (be32 code ++ counted key ++ counted msg)]
      exact wordAt_be32 _ t size
    obtain ⟨rs, hrs⟩ := (loadsResults_iff p hp size.toInt32.toInt.toNat
      ((be32 code ++ counted key ++ counted msg).length + 4)
      (by simp only [List.length_append, be32_length]; omega)).mpr (by
        rw [size_toNat]
        simp only [List.length_append, be32_length]
        split <;> omega)
    rw [hword] at h₃
    exact ⟨_, bind_ok_iff.mpr ⟨_, h₀, bind_ok_iff.mpr ⟨_, h₁, bind_ok_iff.mpr ⟨_, h₂,
      bind_ok_iff.mpr ⟨_, h₃, bind_ok_iff.mpr ⟨_, hrs, rfl⟩⟩⟩⟩⟩⟩

end Rojcpp.Judge
