import Mathlib.Data.Nat.Bitwise
import Rojcpp.Lib.System

/-!
# Which servers a session waits for

`SidMapSer` keeps a mask for every session: the bit at the position of a server's id says that the
session waits for that server.  `push` sets a bit, `pop` clears it and `has_sid` looks at it.

The helper behind `push` takes the position first and the mask second, and is called with the mask
first and the id second: it shifts by the mask and keeps the bits of the id.  `pop` calls its
helper the other way around.  The theorem says which calls of `push` do what they should all the
same.
-/

namespace Rojcpp.Mediator

open Rojcpp.Lib Function

/-- `SidMapSer::_map`. -/
abbrev SidMap := UInt64 → Option UInt32

/-- `1 << pos`, which is defined for the positions of an `int` only. -/
def shiftOne (pos : Int32) : Option UInt32 :=
  if 0 ≤ pos.toInt ∧ pos.toInt < 32 then some (1 <<< UInt32.ofNat pos.toInt.toNat) else none

/-- `clear`. -/
def SidMap.clear (pos : Int32) (v : UInt32) : Option UInt32 :=
  (shiftOne pos).map fun bit => v &&& ~~~bit

/-- `set`. -/
def SidMap.set (pos : Int32) (v : UInt32) : Option UInt32 := (shiftOne pos).map fun bit => v ||| bit

/-- `has_sid`. -/
def hasSid (v : UInt32) (cid : Int32) : Option Bool := (shiftOne cid).map fun bit => v &&& bit != 0

/-- `get`. -/
def SidMap.get (m : SidMap) (sid : UInt64) : UInt32 := (m sid).getD 0

/-- `push`, with the arguments of `set` as they stand there. -/
def SidMap.push (m : SidMap) (sid : UInt64) (cid : Int32) : Option SidMap :=
  (SidMap.set (m.get sid).toInt32 cid.toUInt32).map fun v => update m sid (some v)

/-- `pop`. -/
def SidMap.pop (m : SidMap) (sid : UInt64) (cid : Int32) : Option SidMap :=
  match m sid with
  | none => some m
  | some v => (SidMap.clear cid v).map fun v' => update m sid (some v')

/-! ### Calls -/

/-- A server's id in the range that has a bit. -/
abbrev CtxId := Fin 32

/-- The id as an argument. -/
def CtxId.toInt (cid : CtxId) : Int32 := Int32.ofNat cid

/-- A call of one of the two functions. -/
inductive SidCall where
  | push (sid : UInt64) (cid : CtxId)
  | pop (sid : UInt64) (cid : CtxId)
  deriving DecidableEq, Repr

/-- The pair a call is about. -/
def SidCall.pair : SidCall → UInt64 × CtxId
  | .push sid cid => (sid, cid)
  | .pop sid cid => (sid, cid)

/-- What a call does to the map. -/
def SidCall.run (m : SidMap) : SidCall → Option SidMap
  | .push sid cid => m.push sid cid.toInt
  | .pop sid cid => m.pop sid cid.toInt

/-- The map, which has no value any more behind an undefined shift, and the calls so far. -/
structure SidState where
  map : Option SidMap
  calls : List SidCall

/-- An empty map and its calls. -/
def sidMapSer : System SidState SidCall where
  start := ⟨some fun _ => none, []⟩
  step s c := some ⟨s.map.bind fun m => c.run m, s.calls ++ [c]⟩

/-- The last call about the pair was a `push`. -/
def Pushed (calls : List SidCall) (sid : UInt64) (cid : CtxId) : Prop :=
  (calls.filter fun c => c.pair = (sid, cid)).getLast? = some (.push sid cid)

/-- The map says of every pair whether its last call was a `push`. -/
def TellsLast (s : SidState) : Prop :=
  ∃ m, s.map = some m ∧ ∀ sid cid, hasSid (m.get sid) cid.toInt = some true ↔ Pushed s.calls sid cid

/-- The call is a `pop`, or it pushes the id which the session's mask is as a number. -/
def MaskIsId (s : SidState) : SidCall → Prop
  | .push sid cid => ∀ m, s.map = some m → (m.get sid).toNat = cid
  | .pop _ _ => True

/-! ### Bits -/

theorem shiftOne_id (cid : CtxId) :
    shiftOne cid.toInt = some (1 <<< UInt32.ofNat cid) := by
  revert cid
  decide

theorem bit_toNat (cid : CtxId) : ((1 : UInt32) <<< UInt32.ofNat cid).toNat = 2 ^ cid.1 := by
  revert cid
  decide

/-- A mask as the position of a shift. -/
theorem shiftOne_mask (v : UInt32) :
    shiftOne v.toInt32 = if v.toNat < 32 then some (1 <<< v) else none := by
  have hint : v.toInt32.toInt = (v.toNat : ℤ).bmod (2 ^ 32) := BitVec.toInt_eq_toNat_bmod _
  have hlt := v.toNat_lt
  rw [shiftOne, hint, Int.bmod_def]
  by_cases hsmall : v.toNat < 32
  · have hpos : ((v.toNat : ℤ) % ((2 ^ 32 : ℕ) : ℤ)) = v.toNat := by omega
    rw [if_pos hsmall, hpos, if_pos (by omega), if_pos (by omega), Int.toNat_natCast,
      UInt32.ofNat_toNat]
  · rw [if_neg hsmall, if_neg (by split <;> omega)]

/-- The test for one bit. -/
theorem hasSid_iff (v : UInt32) (cid : CtxId) :
    hasSid v cid.toInt = some true ↔ v.toNat.testBit cid = true := by
  have hand : (v &&& 1 <<< UInt32.ofNat cid).toNat = (v.toNat.testBit cid).toNat * 2 ^ cid.1 := by
    rw [UInt32.toNat_and, bit_toNat, Nat.and_two_pow]
  rw [hasSid, shiftOne_id, Option.map_some, Option.some.injEq, bne_iff_ne, ne_eq,
    ← UInt32.toNat_inj, hand]
  show ¬ _ = 0 ↔ _
  cases v.toNat.testBit cid with
  | true => simp
  | false => simp

theorem testBit_or_bit (v : UInt32) (cid : CtxId) (i : ℕ) :
    (v ||| 1 <<< UInt32.ofNat cid).toNat.testBit i = (v.toNat.testBit i || decide (cid.1 = i)) := by
  rw [UInt32.toNat_or, bit_toNat, Nat.testBit_or, Nat.testBit_two_pow]

theorem testBit_clear_bit (v : UInt32) (cid i : CtxId) :
    (v &&& ~~~(1 <<< UInt32.ofNat cid)).toNat.testBit i =
      (v.toNat.testBit i && decide (cid ≠ i)) := by
  have hbit : (2 : ℕ) ^ cid.1 < 2 ^ 32 := Nat.pow_lt_pow_right (by omega) cid.2
  have hnot : UInt32.size - 1 - 2 ^ cid.1 = 2 ^ 32 - (2 ^ cid.1 + 1) := by
    rw [show UInt32.size = 2 ^ 32 from rfl]
    omega
  rw [UInt32.toNat_and, UInt32.toNat_not, bit_toNat, Nat.testBit_and, hnot,
    Nat.testBit_two_pow_sub_succ hbit, Nat.testBit_two_pow]
  have hi := i.2
  simp [hi, Fin.ext_iff]

/-! ### One call -/

@[simp] theorem SidMap.get_update (m : SidMap) (sid sid' : UInt64) (v : UInt32) :
    SidMap.get (update m sid (some v)) sid' = if sid' = sid then v else m.get sid' := by
  rw [get, update_apply]
  split <;> rfl

/-- What `push` does: it shifts by the mask and keeps the bits of the id. -/
theorem push_eq (m : SidMap) (sid : UInt64) (cid : CtxId) :
    m.push sid cid.toInt = if (m.get sid).toNat < 32
      then some (update m sid (some (UInt32.ofNat cid ||| 1 <<< m.get sid))) else none := by
  have hid : cid.toInt.toUInt32 = UInt32.ofNat cid := by
    revert cid
    decide
  rw [SidMap.push, SidMap.set, shiftOne_mask, hid]
  split <;> rfl

/-- `pop` clears the bit of the id, and no other. -/
theorem pop_spec (m : SidMap) (sid : UInt64) (cid : CtxId) :
    ∃ m', m.pop sid cid.toInt = some m' ∧ ∀ sid' (i : CtxId),
      (m'.get sid').toNat.testBit i =
        ((m.get sid').toNat.testBit i && decide ((sid, cid) ≠ (sid', i))) := by
  rw [SidMap.pop]
  cases hm : m sid with
  | none =>
    refine ⟨m, rfl, fun sid' i => ?_⟩
    by_cases hsid : sid = sid'
    · rw [SidMap.get, ← hsid, hm]
      simp
    · simp [hsid]
  | some v =>
    simp only [SidMap.clear, shiftOne_id]
    refine ⟨_, rfl, fun sid' i => ?_⟩
    rw [SidMap.get_update]
    by_cases hsid : sid' = sid
    · have hv : m.get sid' = v := by rw [SidMap.get, hsid, hm]; rfl
      rw [if_pos hsid, testBit_clear_bit, hv]
      simp [hsid]
    · rw [if_neg hsid]
      simp [Ne.symm hsid]

/-! ### Runs of calls -/

theorem pushed_append (calls : List SidCall) (c : SidCall) (sid : UInt64) (cid : CtxId) :
    Pushed (calls ++ [c]) sid cid ↔
      if c.pair = (sid, cid) then c = .push sid cid else Pushed calls sid cid := by
  rw [Pushed, List.filter_append]
  by_cases hpair : c.pair = (sid, cid)
  · simp [hpair]
  · simp [hpair, Pushed]

/-- The property, with bits. -/
theorem tellsLast_iff (s : SidState) :
    TellsLast s ↔ ∃ m, s.map = some m ∧
      ∀ sid (cid : CtxId), (m.get sid).toNat.testBit cid = true ↔ Pushed s.calls sid cid := by
  simp only [TellsLast, hasSid_iff]

theorem tellsLast_start : TellsLast sidMapSer.start := by
  rw [tellsLast_iff]
  refine ⟨fun _ => none, rfl, fun sid cid => ?_⟩
  show Nat.testBit 0 cid = true ↔ _
  simp [Pushed, sidMapSer]

/-- A call that meets the condition. -/
theorem tellsLast_step (s : SidState) (c : SidCall) (s' : SidState) (hs : TellsLast s)
    (hok : MaskIsId s c) (h : sidMapSer.step s c = some s') : TellsLast s' := by
  cases h
  rw [tellsLast_iff] at hs ⊢
  obtain ⟨m, hm, htells⟩ := hs
  cases c with
  | push sid cid =>
    have hmask : (m.get sid).toNat = cid := hok m hm
    have hget : m.get sid = UInt32.ofNat cid := by rw [← hmask, UInt32.ofNat_toNat]
    have hlt : (m.get sid).toNat < 32 := by rw [hmask]; exact cid.2
    refine ⟨_, by rw [hm]; exact (push_eq m sid cid).trans (if_pos hlt), fun sid' i => ?_⟩
    rw [SidMap.get_update, pushed_append, ← htells]
    by_cases hsid : sid' = sid
    · rw [if_pos hsid, hget, testBit_or_bit, hsid, hget]
      by_cases hi : cid = i
      · simp [SidCall.pair, hi]
      · simp [SidCall.pair, hi, Fin.val_inj]
    · rw [if_neg hsid]
      simp [SidCall.pair, Ne.symm hsid]
  | pop sid cid =>
    obtain ⟨m', hpop, hbits⟩ := pop_spec m sid cid
    refine ⟨m', by rw [hm]; exact hpop, fun sid' i => ?_⟩
    rw [hbits, pushed_append, Bool.and_eq_true, htells, decide_eq_true_eq]
    show _ ↔ if (sid, cid) = (sid', i) then _ else _
    by_cases hpair : (sid, cid) = (sid', i)
    · simp [hpair]
    · simp [hpair]

/-- A call that does not meet it: the shift is undefined, or it sets the bit at the position of the
mask itself, which nobody has pushed. -/
theorem not_tellsLast_step (s : SidState) (c : SidCall) (s' : SidState) (hs : TellsLast s)
    (hok : ¬ MaskIsId s c) (h : sidMapSer.step s c = some s') : ¬ TellsLast s' := by
  cases h
  rw [tellsLast_iff] at hs ⊢
  obtain ⟨m, hm, htells⟩ := hs
  cases c with
  | pop sid cid => exact absurd trivial hok
  | push sid cid =>
    have hmask : (m.get sid).toNat ≠ cid := by
      intro heq
      apply hok
      intro m' hm'
      rw [hm] at hm'
      cases hm'
      exact heq
    intro ⟨m', hm', htells'⟩
    have hpush : m.push sid cid.toInt = some m' := by
      rw [hm] at hm'
      exact hm'
    rw [push_eq] at hpush
    by_cases hlt : (m.get sid).toNat < 32
    · rw [if_pos hlt] at hpush
      cases hpush
      have hfree : (m.get sid).toNat.testBit (m.get sid).toNat = false :=
        Nat.testBit_lt_two_pow Nat.lt_two_pow_self
      have hnot : ¬ Pushed s.calls sid ⟨_, hlt⟩ := by
        rw [← htells]
        simp [hfree]
      have hne : (SidCall.push sid cid).pair ≠ (sid, ⟨_, hlt⟩) := by
        intro heq
        exact hmask (congrArg (fun p : UInt64 × CtxId => p.2.1) heq).symm
      have hpushed := htells' sid ⟨_, hlt⟩
      rw [pushed_append, if_neg hne, SidMap.get_update, if_pos rfl] at hpushed
      apply hnot
      rw [← hpushed]
      have hbit := testBit_or_bit (UInt32.ofNat cid) ⟨_, hlt⟩ (m.get sid).toNat
      rw [UInt32.ofNat_toNat] at hbit
      rw [hbit]
      simp
    · rw [if_neg hlt] at hpush
      cases hpush

/-- **The masks stand for the pairs exactly in these runs.**  After every call of a sequence,
`has_sid` is true of the pairs whose last call was a `push` and of no other, if and only if every
`push` meets a mask that is, as a number, the id it pushes. -/
theorem has_sid_iff (calls : List SidCall) :
    sidMapSer.Throughout TellsLast sidMapSer.start calls ↔
      sidMapSer.Meets MaskIsId sidMapSer.start calls := by
  obtain ⟨t, ht⟩ := sidMapSer.exists_run (fun _ _ => ⟨_, rfl⟩) calls sidMapSer.start
  exact System.throughout_iff (fun _ hs => hs) tellsLast_step not_tellsLast_step calls
    tellsLast_start ht

/-- **One `push` of the server 2**: the mask says that the session waits for the servers 0 and 1. -/
theorem push_two :
    ¬ sidMapSer.Throughout TellsLast sidMapSer.start [.push 7 2] ∧
      (sidMapSer.run sidMapSer.start [.push 7 2]).map
        (fun s => s.map.map fun m => (hasSid (m.get 7) 0, hasSid (m.get 7) 1, hasSid (m.get 7) 2)) =
          some (some (some true, some true, some false)) := by
  constructor
  · intro h
    obtain ⟨m, hm, htells⟩ := h [.push 7 2] [] _ rfl rfl
    have hget : some (3 : UInt32) = some (m.get 7) :=
      congrArg (Option.map fun m : SidMap => m.get 7) hm
    have hpushed : hasSid (m.get 7) (CtxId.toInt 2) = some true := (htells 7 2).mpr rfl
    rw [← Option.some.inj hget] at hpushed
    exact absurd hpushed (by decide)
  · decide

end Rojcpp.Mediator
