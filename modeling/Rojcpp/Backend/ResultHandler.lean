import Rojcpp.Judge.WorkPool
import Rojcpp.Sql.Curd

/-!
# The result handler of the backend

The function `server::init` hands to the judge client.  It looks at the code of a message and at
the first byte of its text: `a` announces the number of tests and is ignored, `A` carries all
results, which go to the database and into the result cache, and a digit starts the text of one
test, whose two numbers are read by a state machine of its own.  Messages with any other code
are ignored.

The database is a function that accepts or refuses a statement.
-/

namespace Rojcpp.Backend

open Rojcpp.Lib Rojcpp.Judge

/-- A call of `JSM().create`. -/
structure CreateCall where
  key : UInt64
  point : Int32
  allPoint : Int32
  resultCode : Int32
  res : Str
  deriving DecidableEq, Repr

/-- A database: the statements it executes, and what it throws on the others. -/
abbrev Database := Str → Except Str Unit

/-- `result_to_mini_result`: the letter appended for a result. -/
def resultToMiniResult (result : Int32) : UInt8 :=
  if result = ResultMean.wrongAnswer.toInt then 'W'
  else if result = ResultMean.accept.toInt then 'A'
  else if result = ResultMean.cpuTimeLimitExceeded.toInt ∨
      result = ResultMean.realTimeLimitExceeded.toInt then 'T'
  else if result = ResultMean.runtimeError.toInt then 'R'
  else if result = ResultMean.memoryLimitExceeded.toInt then 'M'
  else if result = ResultMean.systemError.toInt then 'S'
  else 'X'

/-- The variables of the loop over all results. -/
structure Totals where
  finalResult : Int32
  sumRealTime : UInt64
  sumCpuTime : UInt64
  sumMemory : UInt64
  rightSize : Int32
  miniResult : Str
  deriving DecidableEq, Repr

/-- Their values before the loop. -/
def Totals.start : Totals := ⟨0, 0, 0, 0, 0, []⟩

/-- One round of the loop. -/
def Totals.add (t : Totals) (e : Result) : Totals where
  finalResult := if t.finalResult = 0 ∧ e.result ≠ 0 then e.result else t.finalResult
  sumRealTime := t.sumRealTime + toSize e.realTime
  sumCpuTime := t.sumCpuTime + toSize e.cpuTime
  sumMemory := t.sumMemory + e.memory.toUInt64
  rightSize := if e.result = ResultMean.accept.toInt then t.rightSize + 1 else t.rightSize
  miniResult := t.miniResult ++ [resultToMiniResult e.result]

/-- The score of a submission. -/
def score (rightSize totalSize : Int32) : Int32 :=
  if totalSize = 0 then 0 else 100 * rightSize / totalSize

/-- `judgeTable::update_solution` with its two statements executed. -/
def updateSolution (db : Database) (sid : Str) (result : Int32) (timeUsed memoryUsed : UInt64)
    (score : Int32) (miniResult fullResult : Str) : Except Str Unit := do
  let q ← Sql.updateSolution sid result timeUsed memoryUsed score miniResult
  db q
  let q2 ← Sql.updateFullResult sid fullResult
  db q2

/-- Which number of a test's text is being read. -/
inductive ScanState where
  | point
  | total
  deriving DecidableEq, Repr

/-- One more digit of a number. -/
def pushDigit (n : Int32) (c : UInt8) : Int32 := n * 10 + Int32.ofNat c.toNat - 48

/-- The loop that reads the number of a test and the number of tests. -/
def scanPoint : ScanState → Int32 → Int32 → Str → Int32 × Int32
  | _, nowPoint, totalSize, [] => (nowPoint, totalSize)
  | state, nowPoint, totalSize, c :: s =>
    if isDigit c then
      match state with
      | .point => scanPoint .point (pushDigit nowPoint c) totalSize s
      | .total => scanPoint .total nowPoint (pushDigit totalSize c) s
    else if state = .point then scanPoint .total nowPoint totalSize s
    else (nowPoint, totalSize)

/-- The branch for the message with all results. -/
def storeAll (db : Database) (sid : Str) (intSid : UInt64) (results : List Result) :
    Except Str CreateCall := do
  let t := results.foldl Totals.add Totals.start
  let totalSize := Int32.ofNat results.length
  let fullResult := dumpToJson results
  updateSolution db sid t.finalResult t.sumCpuTime t.sumMemory (score t.rightSize totalSize)
    t.miniResult fullResult
  return ⟨intSid, -1, totalSize, t.finalResult, fullResult⟩

/-- The result handler: the call of `create` it makes, if any. -/
def resultHandler (db : Database) (m : MessageResultJudge) : Except Str (Option CreateCall) :=
  let intSid := fromChars m.key 0
  if m.code ≠ JudgeResultId.success.toInt then .ok none
  else
    match m.msg with
    | [] => .ok none
    | c :: _ =>
      if c = 'a' then .ok none
      else if c = 'A' then (storeAll db m.key intSid m.results).map some
      else if isDigit c then
        let numbers := scanPoint .point 0 0 m.msg
        .ok (some ⟨intSid, numbers.1, numbers.2, m.code, dumpToJson m.results⟩)
      else .ok none

/-- The handler on the messages of a connection, in order. -/
def handleAll (db : Database) : List MessageResultJudge → Except Str (List CreateCall)
  | [] => .ok []
  | m :: ms => do
    let c ← resultHandler db m
    let cs ← handleAll db ms
    return c.toList ++ cs

/-! ### What is stored for a test -/

theorem pushDigit_ofNat (n : ℕ) (c : UInt8) (hc : isDigit c = true) :
    pushDigit (Int32.ofNat n) c = Int32.ofNat (n * 10 + digitVal c) := by
  have hval : c.toNat = digitVal c + 48 := by
    simp only [isDigit, Bool.and_eq_true, decide_eq_true_eq, UInt8.le_iff_toNat_le] at hc
    have h48 : 48 ≤ c.toNat := hc.1
    rw [digitVal]
    omega
  rw [pushDigit, hval, Int32.ofNat_add, Int32.ofNat_add, Int32.ofNat_mul]
  show Int32.ofNat n * 10 + (Int32.ofNat (digitVal c) + 48) - 48 = _
  rw [← Int32.add_assoc, Int32.add_sub_cancel]
  rfl

/-- The byte between the parts of a test's text. -/
abbrev comma : UInt8 := ','

theorem foldl_pushDigit (s : Str) (hs : ∀ c ∈ s, isDigit c = true) : ∀ n : ℕ,
    s.foldl pushDigit (Int32.ofNat n) = Int32.ofNat (digitsValue n s) := by
  induction s with
  | nil => exact fun _ => rfl
  | cons c s ih =>
    intro n
    rw [List.foldl_cons, pushDigit_ofNat n c (hs c (by simp)), ih (fun d hd => hs d (by simp [hd])),
      digitsValue_cons]

/-- A run of digits goes into the number that is being read. -/
theorem scanPoint_digits (s t : Str) (hs : ∀ c ∈ s, isDigit c = true) (state : ScanState) :
    ∀ point total, scanPoint state point total (s ++ t) =
      match state with
      | .point => scanPoint .point (s.foldl pushDigit point) total t
      | .total => scanPoint .total point (s.foldl pushDigit total) t := by
  induction s with
  | nil => cases state <;> exact fun _ _ => rfl
  | cons c s ih =>
    intro point total
    have htail := ih fun d hd => hs d (by simp [hd])
    rw [List.cons_append]
    cases state with
    | point =>
      rw [scanPoint, if_pos (hs c (by simp))]
      exact htail (pushDigit point c) total
    | total =>
      rw [scanPoint, if_pos (hs c (by simp))]
      exact htail point (pushDigit total c)

/-- A comma ends the number of the test, and the second one ends the loop. -/
theorem scanPoint_comma (state : ScanState) (point total : Int32) (t : Str) :
    scanPoint state point total (comma :: t) =
      if state = .point then scanPoint .total point total t else (point, total) := by
  cases state <;> rw [scanPoint, if_neg (by decide)]

/-- The two numbers in front of the file names are read back. -/
theorem scanPoint_text (i n : ℕ) (names : Str) :
    scanPoint .point 0 0 (decimal i ++ comma :: (decimal n ++ comma :: names)) =
      (Int32.ofNat i, Int32.ofNat n) := by
  have hi := scanPoint_digits (decimal i) (comma :: (decimal n ++ comma :: names))
    (decimal_isDigit i) .point (Int32.ofNat 0) 0
  have hn := scanPoint_digits (decimal n) (comma :: names) (decimal_isDigit n) .total
    (Int32.ofNat i) (Int32.ofNat 0)
  simp only [foldl_pushDigit _ (decimal_isDigit _), digitsValue_decimal] at hi hn
  refine Eq.trans hi ?_
  rw [scanPoint_comma, if_pos rfl]
  refine Eq.trans hn ?_
  rw [scanPoint_comma, if_neg (by decide)]

/-- **A test's message is stored under its own numbers.** -/
theorem resultHandler_point (db : Database) (key : Str) (n i : ℕ) (test : Path × Path)
    (r : Result) :
    resultHandler db (pointMessage key n i test r) =
      .ok (some ⟨fromChars key 0, Int32.ofNat i, Int32.ofNat n, 0, dumpToJson [r]⟩) := by
  obtain ⟨d, ds, hd⟩ := List.exists_cons_of_ne_nil (decimal_ne_nil i)
  have hdig : isDigit d = true := decimal_isDigit i d (by simp [hd])
  have ha : d ≠ 'a' := by
    rintro rfl
    exact absurd hdig (by decide)
  have hA : d ≠ 'A' := by
    rintro rfl
    exact absurd hdig (by decide)
  have hcomma : ascii "," = [comma] := by decide
  have hmsg : (pointMessage key n i test r).msg =
      decimal i ++ comma :: (decimal n ++ comma ::
        (getBaseName test.1 ++ comma :: getBaseName test.2)) := by
    simp only [pointMessage, MessageResultJudge.pushBack, MessageResultJudge.new, hcomma,
      List.append_assoc, List.nil_append, List.cons_append]
  have hscan := scanPoint_text i n (getBaseName test.1 ++ comma :: getBaseName test.2)
  rw [resultHandler, hmsg, hscan]
  simp only [hd, List.cons_append, if_neg ha, if_neg hA, if_pos hdig]
  rfl

/-! ### What is stored for all results -/

/-- The first result that is not an acceptance, or acceptance. -/
def finalResult (rs : List Result) : Int32 :=
  ((rs.map Result.result).find? (· ≠ 0)).getD 0

theorem foldl_add_finalResult (rs : List Result) : ∀ t : Totals,
    (rs.foldl Totals.add t).finalResult =
      if t.finalResult = 0 then finalResult rs else t.finalResult := by
  induction rs with
  | nil =>
    intro t
    by_cases ht : t.finalResult = 0 <;> simp [finalResult, ht]
  | cons r rs ih =>
    intro t
    rw [List.foldl_cons, ih]
    by_cases ht : t.finalResult = 0
    · by_cases hr : r.result = 0
      · simp [Totals.add, ht, hr, finalResult]
      · simp [Totals.add, ht, hr, finalResult]
    · simp [Totals.add, ht]

/-! ### The rows an outcome is stored in -/

/-- The statement updates the row with this number, of one of the two tables. -/
def NamesRow (sid statement : Str) : Prop :=
  (ascii "UPDATE solutions SET " <+: statement ∧
      ascii " WHERE id = " ++ sid ++ ascii ";" <:+ statement) ∨
    (ascii "UPDATE solution_full_results SET " <+: statement ∧
      ascii "where solution_id = " ++ sid ++ ascii ";" <:+ statement)

/-- Marks are replaced part by part. -/
theorem fillMarks_append (s t : Str) : ∀ ps : List Str,
    Sql.fillMarks (s ++ t) ps = Sql.fillMarks s ps ++
      Sql.fillMarks t (ps.drop (Sql.getMarkSize s)) := by
  induction s with
  | nil => exact fun _ => rfl
  | cons c s ih =>
    intro ps
    rw [List.cons_append, Sql.fillMarks, Sql.fillMarks]
    by_cases hc : c = Sql.mark
    · rw [if_pos hc, if_pos hc, ih, List.append_assoc, List.drop_tail, Sql.getMarkSize,
        Sql.getMarkSize, hc, List.count_cons_self]
    · rw [if_neg hc, if_neg hc, ih, List.cons_append, Sql.getMarkSize, Sql.getMarkSize,
        List.count_cons_of_ne hc]

theorem updateSolution_names (sid : Str) (result : Int32) (timeUsed memoryUsed : UInt64)
    (score : Int32) (miniResult : Str) :
    ∃ q, Sql.updateSolution sid result timeUsed memoryUsed score miniResult = .ok q ∧
      NamesRow sid q := by
  refine ⟨_, Sql.feed_getQuery _ [_, _, _, _, _, _] Sql.updateSolutionTemplate_marks.symm, .inl ?_⟩
  have hhead : Sql.updateSolutionTemplate = ascii "UPDATE solutions SET " ++
      (ascii "result = ?, time_used = ?,memory_used = ?,mini_result = '?',score = ?" ++
        ascii " WHERE id = ?;") := by decide
  rw [hhead, fillMarks_append, fillMarks_append]
  refine ⟨List.prefix_append _ _, ?_⟩
  rw [← List.append_assoc]
  exact List.suffix_append _ _

theorem updateFullResult_names (sid fullResult : Str) :
    ∃ q, Sql.updateFullResult sid fullResult = .ok q ∧ NamesRow sid q := by
  refine ⟨_, Sql.feed_getQuery _ [_, _] Sql.updateFullResultTemplate_marks.symm, .inr ?_⟩
  have hhead : Sql.updateFullResultTemplate = ascii "UPDATE solution_full_results SET " ++
      (ascii "data = '?'" ++ ascii "where solution_id = ?;") := by decide
  rw [hhead, fillMarks_append, fillMarks_append]
  refine ⟨List.prefix_append _ _, ?_⟩
  rw [← List.append_assoc]
  exact List.suffix_append _ _

/-- A database that takes the statements about one row takes both updates of it. -/
theorem updateSolution_ok {db : Database} {sid : Str} (hdb : ∀ q, NamesRow sid q → db q = .ok ())
    (result : Int32) (timeUsed memoryUsed : UInt64) (score : Int32) (miniResult fullResult : Str) :
    updateSolution db sid result timeUsed memoryUsed score miniResult fullResult = .ok () := by
  obtain ⟨q, hq, hnames⟩ := updateSolution_names sid result timeUsed memoryUsed score miniResult
  obtain ⟨q', hq', hnames'⟩ := updateFullResult_names sid fullResult
  rw [updateSolution, hq, hq']
  show (db q >>= fun _ => db q') = _
  rw [hdb q hnames]
  exact hdb q' hnames'

/-- A database that takes the statements about one row lets its final outcome be stored. -/
theorem storeAll_ok {db : Database} {sid : Str} (hdb : ∀ q, NamesRow sid q → db q = .ok ())
    (intSid : UInt64) (rs : List Result) :
    storeAll db sid intSid rs =
      .ok ⟨intSid, -1, Int32.ofNat rs.length, finalResult rs, dumpToJson rs⟩ := by
  rw [storeAll]
  simp only [updateSolution_ok hdb]
  rw [show (rs.foldl Totals.add Totals.start).finalResult = finalResult rs from
    foldl_add_finalResult rs Totals.start]
  rfl

end Rojcpp.Backend
