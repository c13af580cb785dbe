import Mathlib.Tactic.SplitIfs
import Rojcpp.Backend.ResultHandler

/-!
# The summary of a submission

For the message with all results the handler stores a letter for every test, one result for the
whole submission and a score, all from one pass over the results.  `Consistent` says what the three
are meant to be, each in terms of the results alone, and `resultHandler_summary` that they are.

The score is computed in `int`s, so the number of tests is assumed to be below 2^31 / 100.
-/

namespace Rojcpp.Backend

open Rojcpp.Lib Rojcpp.Judge

/-- The three summaries the handler stores. -/
structure Summary where
  miniResult : Str
  finalResult : Int32
  score : Int32
  deriving DecidableEq, Repr

/-- What one pass over the results makes of them. -/
def summary (rs : List Result) : Summary :=
  let t := rs.foldl Totals.add Totals.start
  ⟨t.miniResult, t.finalResult, Backend.score t.rightSize (Int32.ofNat rs.length)⟩

/-- A test that is accepted. -/
def isAccepted (r : Result) : Bool := r.result == ResultMean.accept.toInt

/-- What the summaries are meant to say about the results. -/
structure Consistent (rs : List Result) (s : Summary) : Prop where
  letters : s.miniResult.length = rs.length
  accepted : ∀ (i : ℕ) (r : Result) (c : UInt8), rs[i]? = some r → s.miniResult[i]? = some c →
    (c = 'A' ↔ isAccepted r = true)
  final_zero : s.finalResult = 0 ↔ ∀ r ∈ rs, isAccepted r = true
  final_first : ∀ r, rs.find? (fun r => !isAccepted r) = some r → s.finalResult = r.result
  score_range : 0 ≤ s.score.toInt ∧ s.score.toInt ≤ 100
  score_floor : rs ≠ [] → s.score.toInt = (100 * rs.countP isAccepted / rs.length : ℕ)
  score_full : s.score = 100 ↔ rs ≠ [] ∧ s.finalResult = 0

/-! ### One pass -/

theorem isAccepted_iff (r : Result) : isAccepted r = true ↔ r.result = 0 := beq_iff_eq

theorem foldl_add_miniResult (rs : List Result) : ∀ t : Totals,
    (rs.foldl Totals.add t).miniResult =
      t.miniResult ++ rs.map fun r => resultToMiniResult r.result := by
  induction rs with
  | nil => exact fun t => (List.append_nil _).symm
  | cons r rs ih =>
    intro t
    rw [List.foldl_cons, ih, List.map_cons]
    show t.miniResult ++ [resultToMiniResult r.result] ++ _ = _
    rw [List.append_assoc]
    rfl

theorem foldl_add_rightSize (rs : List Result) : ∀ t : Totals,
    (rs.foldl Totals.add t).rightSize = t.rightSize + Int32.ofNat (rs.countP isAccepted) := by
  induction rs with
  | nil => exact fun t => (Int32.add_zero _).symm
  | cons r rs ih =>
    intro t
    have hround : (t.add r).rightSize = if isAccepted r = true then t.rightSize + 1
        else t.rightSize := by
      rw [Totals.add]
      exact if_congr (isAccepted_iff r).symm rfl rfl
    rw [List.foldl_cons, ih, List.countP_cons, hround, Int32.ofNat_add]
    by_cases hr : isAccepted r = true
    · rw [if_pos hr, if_pos hr, Int32.add_assoc, Int32.add_comm 1]
      rfl
    · rw [if_neg hr, if_neg hr]
      show _ = t.rightSize + (Int32.ofNat (rs.countP isAccepted) + 0)
      rw [Int32.add_zero]

theorem summary_miniResult (rs : List Result) :
    (summary rs).miniResult = rs.map fun r => resultToMiniResult r.result :=
  foldl_add_miniResult rs Totals.start

theorem summary_finalResult (rs : List Result) : (summary rs).finalResult = finalResult rs :=
  foldl_add_finalResult rs Totals.start

theorem summary_score (rs : List Result) :
    (summary rs).score =
      score (Int32.ofNat (rs.countP isAccepted)) (Int32.ofNat rs.length) := by
  show score (rs.foldl Totals.add Totals.start).rightSize _ = _
  rw [foldl_add_rightSize]
  show score (0 + _) _ = _
  rw [Int32.zero_add]

/-! ### The letters -/

/-- The letter is `A` for an accepted test and for no other. -/
theorem resultToMiniResult_eq (r : Result) :
    resultToMiniResult r.result = 'A' ↔ isAccepted r = true := by
  rw [isAccepted_iff]
  constructor
  · intro h
    by_contra hr
    have hother : r.result ≠ ResultMean.accept.toInt := hr
    rw [resultToMiniResult, if_neg hother] at h
    split_ifs at h <;> exact absurd h (by decide)
  · intro h
    rw [h]
    rfl

/-! ### The result -/

/-- The result of the first test that is not accepted, or 0. -/
theorem finalResult_eq (rs : List Result) :
    finalResult rs = ((rs.find? fun r => !isAccepted r).map Result.result).getD 0 := by
  rw [finalResult, List.find?_map]
  congr 2
  refine congrArg (fun p => rs.find? p) (funext fun r => ?_)
  show decide (r.result ≠ 0) = !(r.result == 0)
  rw [decide_not]
  rfl

theorem find?_none_iff (rs : List Result) :
    (rs.find? fun r => !isAccepted r) = none ↔ ∀ r ∈ rs, isAccepted r = true := by
  rw [List.find?_eq_none]
  refine forall₂_congr fun r _ => ?_
  rw [Bool.not_eq_true', Bool.not_eq_false]

theorem finalResult_zero (rs : List Result) :
    finalResult rs = 0 ↔ ∀ r ∈ rs, isAccepted r = true := by
  rw [finalResult_eq, ← find?_none_iff]
  cases hfind : rs.find? fun r => !isAccepted r with
  | none => exact iff_of_true rfl rfl
  | some r =>
    refine iff_of_false ?_ (Option.some_ne_none r)
    have hr : (!isAccepted r) = true := List.find?_some (p := fun r => !isAccepted r) hfind
    intro hzero
    rw [(isAccepted_iff r).mpr hzero] at hr
    cases hr

/-! ### The score -/

/-- The division is the one of numbers, as nothing leaves the range of `int`. -/
theorem score_toInt {right total : ℕ} (hright : right ≤ total) (hpos : 0 < total)
    (htotal : 100 * total < 2 ^ 31) :
    (score (Int32.ofNat right) (Int32.ofNat total)).toInt = (100 * right / total : ℕ) := by
  have hden : (Int32.ofNat total).toInt = total := Int32.toInt_ofNat_of_lt (by omega)
  have hnum : (100 * Int32.ofNat right).toInt = (100 * right : ℕ) := by
    have hmul : 100 * Int32.ofNat right = Int32.ofNat (100 * right) :=
      (Int32.ofNat_mul 100 right).symm
    rw [hmul, Int32.toInt_ofNat_of_lt (by omega)]
  have hne : Int32.ofNat total ≠ 0 := by
    intro h
    rw [h] at hden
    have hzero : (0 : Int32).toInt = 0 := rfl
    omega
  have hminus : Int32.ofNat total ≠ -1 := by
    intro h
    rw [h] at hden
    have hone : (-1 : Int32).toInt = -1 := rfl
    omega
  rw [score, if_neg hne, Int32.toInt_div_of_ne_right _ _ hminus, hnum, hden,
    Int.tdiv_eq_ediv_of_nonneg (Int.natCast_nonneg _), ← Int.natCast_ediv]

/-- The full score is for all of them. -/
theorem floor_full_iff {right total : ℕ} (hright : right ≤ total) (hpos : 0 < total) :
    100 * right / total = 100 ↔ right = total := by
  constructor
  · intro h
    have hle : 100 * total ≤ 100 * right := (Nat.le_div_iff_mul_le hpos).mp (Nat.le_of_eq h.symm)
    omega
  · intro h
    rw [h, Nat.mul_div_cancel _ hpos]

theorem floor_le {right total : ℕ} (hright : right ≤ total) : 100 * right / total ≤ 100 := by
  refine Nat.div_le_of_le_mul ?_
  rw [Nat.mul_comm total]
  exact Nat.mul_le_mul_left 100 hright

/-- **The three summaries agree with the results and with each other.** -/
theorem summary_consistent (rs : List Result) (hlen : 100 * rs.length < 2 ^ 31) :
    Consistent rs (summary rs) := by
  have hcount : rs.countP isAccepted ≤ rs.length := List.countP_le_length
  have hscore : rs ≠ [] → (summary rs).score.toInt =
      (100 * rs.countP isAccepted / rs.length : ℕ) := by
    intro hne
    rw [summary_score]
    exact score_toInt hcount (List.length_pos_iff.mpr hne) hlen
  have hempty : rs = [] → (summary rs).score = 0 := by
    intro hnil
    rw [hnil]
    rfl
  constructor
  · rw [summary_miniResult, List.length_map]
  · intro i r c hr hc
    rw [summary_miniResult, List.getElem?_map, hr, Option.map_some, Option.some.injEq] at hc
    rw [← hc]
    exact resultToMiniResult_eq r
  · rw [summary_finalResult]
    exact finalResult_zero rs
  · intro r hr
    rw [summary_finalResult, finalResult_eq, hr]
    rfl
  · by_cases hne : rs = []
    · rw [hempty hne]
      decide
    · rw [hscore hne]
      exact ⟨Int.natCast_nonneg _, Int.ofNat_le.mpr (floor_le hcount)⟩
  · exact hscore
  · rw [summary_finalResult, finalResult_zero, ← List.countP_eq_length]
    by_cases hne : rs = []
    · rw [hempty hne]
      exact iff_of_false (by decide) fun h => h.1 hne
    · have hpos := List.length_pos_iff.mpr hne
      have hfull : (summary rs).score = 100 ↔ (summary rs).score.toInt = 100 :=
        Int32.toInt_inj.symm
      rw [hfull, hscore hne, ← floor_full_iff hcount hpos]
      exact ⟨fun h => ⟨hne, by omega⟩, fun h => by omega⟩

/-! ### What is stored -/

/-- The statements the handler has executed for all results. -/
theorem storeAll_summary (db : Database) (sid : Str) (intSid : UInt64) (rs : List Result) :
    storeAll db sid intSid rs =
      (updateSolution db sid (summary rs).finalResult
        (rs.foldl Totals.add Totals.start).sumCpuTime (rs.foldl Totals.add Totals.start).sumMemory
        (summary rs).score (summary rs).miniResult (dumpToJson rs)).map
      fun _ => ⟨intSid, -1, Int32.ofNat rs.length, (summary rs).finalResult, dumpToJson rs⟩ := by
  show (updateSolution db sid (summary rs).finalResult
      (rs.foldl Totals.add Totals.start).sumCpuTime (rs.foldl Totals.add Totals.start).sumMemory
      (summary rs).score (summary rs).miniResult (dumpToJson rs) >>= fun _ => pure _) = _
  cases updateSolution db sid (summary rs).finalResult
      (rs.foldl Totals.add Totals.start).sumCpuTime (rs.foldl Totals.add Totals.start).sumMemory
      (summary rs).score (summary rs).miniResult (dumpToJson rs) with
  | error e => rfl
  | ok u => rfl

/-- **The stored summary of a submission.**  For every message with all results of fewer than
2^31 / 100 tests, the handler stores a summary that is consistent with the results. -/
theorem resultHandler_summary (db : Database) (m : MessageResultJudge) (rest : Str)
    (hcode : m.code = JudgeResultId.success.toInt) (hmsg : m.msg = ('A' : UInt8) :: rest)
    (hlen : 100 * m.results.length < 2 ^ 31) :
    ∃ (s : Summary) (timeUsed memoryUsed : UInt64), Consistent m.results s ∧
      resultHandler db m =
        (updateSolution db m.key s.finalResult timeUsed memoryUsed s.score s.miniResult
          (dumpToJson m.results)).map fun _ =>
            some ⟨fromChars m.key 0, -1, Int32.ofNat m.results.length, s.finalResult,
              dumpToJson m.results⟩ := by
  refine ⟨summary m.results, (m.results.foldl Totals.add Totals.start).sumCpuTime,
    (m.results.foldl Totals.add Totals.start).sumMemory, summary_consistent m.results hlen, ?_⟩
  rw [resultHandler, if_neg (not_not_intro hcode), hmsg]
  show (if ('A' : UInt8) = 'a' then _ else if ('A' : UInt8) = 'A' then _ else _) = _
  rw [if_neg (by decide), if_pos rfl, storeAll_summary]
  cases updateSolution db m.key (summary m.results).finalResult
      (m.results.foldl Totals.add Totals.start).sumCpuTime
      (m.results.foldl Totals.add Totals.start).sumMemory (summary m.results).score
      (summary m.results).miniResult (dumpToJson m.results) with
  | error e => rfl
  | ok u => rfl

/-- The message of a submission with two of three tests accepted. -/
def partlyAccepted : MessageResultJudge :=
  ⟨0, ascii "7", ascii "ALL",
    [⟨5, 0, 1024, 0, 0, 0, 0⟩, ⟨900, 0, 4096, 0, 0, 0, 1⟩, ⟨5, 0, 1024, 0, 0, 0, 0⟩]⟩

theorem resultHandler_summary_partly :
    ∃ (s : Summary) (timeUsed memoryUsed : UInt64), Consistent partlyAccepted.results s ∧
      resultHandler (fun _ => .ok ()) partlyAccepted =
        (updateSolution (fun _ => .ok ()) partlyAccepted.key s.finalResult timeUsed memoryUsed
          s.score s.miniResult (dumpToJson partlyAccepted.results)).map fun _ =>
            some ⟨fromChars partlyAccepted.key 0, -1, Int32.ofNat partlyAccepted.results.length,
              s.finalResult, dumpToJson partlyAccepted.results⟩ :=
  resultHandler_summary (fun _ => .ok ()) partlyAccepted (ascii "LL") rfl rfl (by decide)

example : summary partlyAccepted.results = ⟨ascii "ATA", 1, 66⟩ := by decide +kernel

end Rojcpp.Backend
