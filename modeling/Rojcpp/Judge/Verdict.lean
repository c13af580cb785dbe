import Rojcpp.Judge.WorkPool

/-!
# What the messages of a submission say

`reports` are the raw reports of the runs of a submission that compiled, up to the first run that
could not be started, and `verdicts` what `Judge` makes of them.  `judgePoints_eq` takes the
messages of `work_stage1` apart into one message per verdict and the final message, which is sent
exactly when every run was started.

`Judge` is given the name of the user's own output file where the answer file belongs, and the
server opens that name in its own working directory.  So a clean run is compared with whatever
lies there; `verdicts_follow_answers_iff` says when that comes to the comparison with the answer.
-/

namespace Rojcpp.Judge

open Rojcpp.Lib

/-! ### Runs -/

/-- The reports of the runs from the `i`-th on, each with the files it leaves. -/
def reportsFrom (host : Host) (jn : JudgeQueueNode) (w : Workspace) :
    ℕ → List (Path × Path) → FileSystem → List (Result × FileSystem)
  | _, [], _ => []
  | i, test :: tests, fs =>
    match judger host (i + 1) (pointArgs jn w i test.1) fs with
    | .error _ => []
    | .ok (r, fs') => (r, fs') :: reportsFrom host jn w (i + 1) tests fs'

/-- The reports of all runs of a submission. -/
def reports (host : Host) (jn : JudgeQueueNode) (w : Workspace) : List (Result × FileSystem) :=
  reportsFrom host jn w 0 w.problem.tests w.files

/-- `Judge`'s results for the reports of the tests from the `i`-th on. -/
def verdictsFrom (jn : JudgeQueueNode) (w : Workspace) :
    ℕ → List (Path × Path) → List (Result × FileSystem) → List Result
  | i, test :: tests, r :: rs =>
    verdict (pointArgs jn w i test.1) (userOutFile i) r.2 r.1 :: verdictsFrom jn w (i + 1) tests rs
  | _, _, _ => []

/-- The results of a submission. -/
def verdicts (host : Host) (jn : JudgeQueueNode) (w : Workspace) : List Result :=
  verdictsFrom jn w 0 w.problem.tests (reports host jn w)

/-- The messages of the tests from the `i`-th on. -/
def pointMessages (key : Str) (n : ℕ) : ℕ → List (Path × Path) → List Result →
    List MessageResultJudge
  | i, test :: tests, r :: rs => pointMessage key n i test r :: pointMessages key n (i + 1) tests rs
  | _, _, _ => []

theorem judge_eq (host : Host) (k : ℕ) (args : JudgeArgs) (outFile : Path) (fs : FileSystem) :
    judge host k args outFile fs =
      (judger host k args fs).map fun r => (verdict args outFile r.2 r.1, r.2) := by
  rw [judge]
  cases judger host k args fs <;> rfl

/-- The loop of `work_stage1`: a message per report, and the final message when no run is
missing. -/
theorem judgePoints_eq (host : Host) (jn : JudgeQueueNode) (w : Workspace)
    (tests : List (Path × Path)) : ∀ (i : ℕ) (fs : FileSystem) (all : MessageResultJudge),
    judgePoints host jn w i tests fs all =
      let rs := verdictsFrom jn w i tests (reportsFrom host jn w i tests fs)
      pointMessages jn.key w.problem.inputData.length i tests rs ++
        if rs.length = tests.length then [{ all with results := all.results ++ rs }] else [] := by
  induction tests with
  | nil =>
    intro i fs all
    simp [judgePoints, verdictsFrom, pointMessages]
  | cons test tests ih =>
    intro i fs all
    rw [judgePoints, reportsFrom, judge_eq]
    cases hrun : judger host (i + 1) (pointArgs jn w i test.1) fs with
    | error e => simp [Except.map, verdictsFrom, pointMessages]
    | ok r =>
      simp only [Except.map, verdictsFrom, pointMessages, ih, MessageResultJudge.pushBack,
        List.cons_append, List.length_cons, Nat.add_right_cancel_iff, List.append_assoc,
        List.nil_append]

theorem verdictsFrom_length (jn : JudgeQueueNode) (w : Workspace) (tests : List (Path × Path)) :
    ∀ (i : ℕ) (rs : List (Result × FileSystem)),
      (verdictsFrom jn w i tests rs).length = min tests.length rs.length := by
  induction tests with
  | nil =>
    intro i rs
    simp [verdictsFrom]
  | cons test tests ih =>
    intro i rs
    cases rs with
    | nil => simp [verdictsFrom]
    | cons r rs => simp [verdictsFrom, ih, Nat.add_min_add_right]

theorem reportsFrom_length_le (host : Host) (jn : JudgeQueueNode) (w : Workspace)
    (tests : List (Path × Path)) :
    ∀ (i : ℕ) (fs : FileSystem), (reportsFrom host jn w i tests fs).length ≤ tests.length := by
  induction tests with
  | nil =>
    intro i fs
    simp [reportsFrom]
  | cons test tests ih =>
    intro i fs
    rw [reportsFrom]
    split
    · simp
    · simp [ih]

/-! ### Submissions that compile -/

/-- The workspace of a submission whose language is supported, whose problem and work directory
are there, and whose compilation was started and succeeded. -/
def compiled (host : Host) (jn : JudgeQueueNode) : Option Workspace :=
  if hlang : isSportLanguage jn.language = false then none
  else
    match prepare host jn (.ofName jn.language hlang) with
    | .error _ => none
    | .ok w =>
      match judger host 0 (compileCPPArgs w.workPath codeName) w.files with
      | .error _ => none
      | .ok (r, fs) => if compileFailed r then none else some { w with files := fs }

theorem workStage1_compiled (host : Host) (jn : JudgeQueueNode) (w : Workspace)
    (h : compiled host jn = some w) : workStage1 host jn = judgeAll host jn w := by
  rw [compiled] at h
  rw [workStage1]
  by_cases hlang : isSportLanguage jn.language = false
  · rw [dif_pos hlang] at h
    cases h
  rw [dif_neg hlang] at h ⊢
  cases hprep : prepare host jn (.ofName jn.language hlang) with
  | error e =>
    rw [hprep] at h
    cases h
  | ok w' =>
    rw [hprep] at h
    simp only at h ⊢
    cases hrun : judger host 0 (compileCPPArgs w'.workPath codeName) w'.files with
    | error e =>
      rw [hrun] at h
      cases h
    | ok p =>
      obtain ⟨r, fs⟩ := p
      rw [hrun] at h
      simp only at h ⊢
      by_cases hres : compileFailed r
      · rw [if_pos hres] at h
        cases h
      · rw [if_neg hres] at h ⊢
        cases h
        rfl

/-- A submission that does not compile gets one message with an error code, or none. -/
theorem workStage1_not_compiled (host : Host) (jn : JudgeQueueNode)
    (h : compiled host jn = none) :
    ∀ m ∈ workStage1 host jn, m.code = JudgeResultId.invalidConfig.toInt ∨
      m.code = JudgeResultId.compileFail.toInt := by
  rw [compiled] at h
  rw [workStage1]
  split
  · intro m hm
    rw [List.mem_singleton.mp hm]
    exact .inl rfl
  rename_i hlang
  rw [dif_neg hlang] at h
  split
  · simp
  rename_i w hw
  rw [hw] at h
  simp only at h ⊢
  split
  · simp
  rename_i r fs hrun
  rw [hrun] at h
  simp only at h
  split
  · intro m hm
    rw [List.mem_singleton.mp hm]
    exact .inr rfl
  · rename_i hres
    rw [if_neg hres] at h
    cases h

/-! ### Single messages -/

theorem pointMessages_getElem? (key : Str) (n : ℕ) (tests : List (Path × Path)) :
    ∀ (i j : ℕ) (rs : List Result),
      (pointMessages key n i tests rs)[j]? =
        (tests.zip rs)[j]?.map fun p => pointMessage key n (i + j) p.1 p.2 := by
  induction tests with
  | nil =>
    intro i j rs
    simp [pointMessages]
  | cons test tests ih =>
    intro i j rs
    cases rs with
    | nil => simp [pointMessages]
    | cons r rs =>
      cases j with
      | zero => simp [pointMessages]
      | succ j =>
        simp only [pointMessages, List.getElem?_cons_succ, List.zip_cons_cons, ih]
        rw [show i + 1 + j = i + (j + 1) by omega]

theorem verdictsFrom_getElem? (jn : JudgeQueueNode) (w : Workspace)
    (tests : List (Path × Path)) : ∀ (i j : ℕ) (rs : List (Result × FileSystem)),
      (verdictsFrom jn w i tests rs)[j]? = (tests.zip rs)[j]?.map fun p =>
        verdict (pointArgs jn w (i + j) p.1.1) (userOutFile (i + j)) p.2.2 p.2.1 := by
  induction tests with
  | nil =>
    intro i j rs
    simp [verdictsFrom]
  | cons test tests ih =>
    intro i j rs
    cases rs with
    | nil => simp [verdictsFrom]
    | cons r rs =>
      cases j with
      | zero => simp [verdictsFrom]
      | succ j =>
        simp only [verdictsFrom, List.getElem?_cons_succ, List.zip_cons_cons, ih]
        rw [show i + 1 + j = i + (j + 1) by omega]

theorem tests_length (p : Problem) : p.tests.length = p.inputData.length := by
  simp [Problem.tests, p.sameSize]

/-- The `i`-th point that is sent carries the verdict of the `i`-th report. -/
theorem workStage1_point (host : Host) (jn : JudgeQueueNode) (w : Workspace)
    (hw : compiled host jn = some w) (i : ℕ) (test : Path × Path) (raw : Result)
    (fs : FileSystem) (htest : w.problem.tests[i]? = some test)
    (hraw : (reports host jn w)[i]? = some (raw, fs)) :
    (workStage1 host jn)[i + 1]? =
      some (pointMessage jn.key w.problem.inputData.length i test
        (verdict (pointArgs jn w i test.1) (userOutFile i) fs raw)) := by
  have hzip : (w.problem.tests.zip (reports host jn w))[i]? = some (test, (raw, fs)) := by
    rw [List.getElem?_zip_eq_some]
    exact ⟨htest, hraw⟩
  have hverdict : (verdicts host jn w)[i]? =
      some (verdict (pointArgs jn w i test.1) (userOutFile i) fs raw) := by
    rw [verdicts, verdictsFrom_getElem?, hzip, Nat.zero_add, Option.map_some]
  have hpoint : (pointMessages jn.key w.problem.inputData.length 0 w.problem.tests
      (verdicts host jn w))[i]? = some (pointMessage jn.key w.problem.inputData.length i test
        (verdict (pointArgs jn w i test.1) (userOutFile i) fs raw)) := by
    have hzip' : (w.problem.tests.zip (verdicts host jn w))[i]? =
        some (test, verdict (pointArgs jn w i test.1) (userOutFile i) fs raw) := by
      rw [List.getElem?_zip_eq_some]
      exact ⟨htest, hverdict⟩
    rw [pointMessages_getElem?, hzip', Nat.zero_add, Option.map_some]
  rw [workStage1_compiled host jn w hw, judgeAll, List.getElem?_cons_succ, judgePoints_eq]
  exact List.getElem?_append_left (List.getElem?_eq_some_iff.mp hpoint).1 ▸ hpoint

/-! ### Verdicts and answers -/

/-- The `i`-th run of a submission is reported without an error and below the memory limit. -/
structure CleanRun (host : Host) (jn : JudgeQueueNode) (w : Workspace) (i : ℕ)
    (test : Path × Path) (raw : Result) (fs : FileSystem) : Prop where
  isTest : w.problem.tests[i]? = some test
  isReport : (reports host jn w)[i]? = some (raw, fs)
  error_eq : raw.error = 0
  result_eq : raw.result = 0
  memory_ok : overMemory (pointArgs jn w i test.1) raw = false

/-- The user's output of the `i`-th run agrees with the file `answer`. -/
def outputAgrees (w : Workspace) (fs : FileSystem) (i : ℕ) (answer : Path) : Bool :=
  noipstyleCheck (fs.read (w.workPath.append (userOutFile i))) (fs.read answer)

/-- Every clean run is sent as accepted when the user's output agrees with the answer file of
the test, and as a wrong answer otherwise. -/
def VerdictsFollowAnswers (host : Host) (jn : JudgeQueueNode) (w : Workspace) : Prop :=
  ∀ i test raw fs, CleanRun host jn w i test raw fs →
    ∃ m, (workStage1 host jn)[i + 1]? = some m ∧
      m.results = [{ raw with
        result := if outputAgrees w fs i test.2 then ResultMean.accept.toInt
          else ResultMean.wrongAnswer.toInt }]

/-- The verdict of a clean run compares the output with the file named like it. -/
theorem verdict_clean (host : Host) (jn : JudgeQueueNode) (w : Workspace) (i : ℕ)
    (test : Path × Path) (raw : Result) (fs : FileSystem)
    (h : CleanRun host jn w i test raw fs) :
    verdict (pointArgs jn w i test.1) (userOutFile i) fs raw =
      { raw with
        result := if outputAgrees w fs i (userOutFile i) then ResultMean.accept.toInt
          else ResultMean.wrongAnswer.toInt } := by
  have hclean : ¬ (raw.error ≠ 0 ∨ raw.result ≠ 0) := by
    rw [h.error_eq, h.result_eq]
    decide
  have hout : (pointArgs jn w i test.1).outputPath = w.workPath.append (userOutFile i) :=
    getJudgeArgs_outputPath _ _ _ _ _ _ _ _
  rw [verdict, if_neg hclean, h.memory_ok, hout, ← outputAgrees]
  simp only [Bool.false_eq_true, if_false]
  split
  · rw [show ResultMean.accept.toInt = raw.result from h.result_eq.symm]
  · rfl

/-- **When verdicts follow the answers.**  For a submission that compiles, every clean run gets
the verdict its answer file asks for if and only if comparing its output with the file of the
same name in the server's working directory comes out like comparing it with the answer. -/
theorem verdicts_follow_answers_iff (host : Host) (jn : JudgeQueueNode) (w : Workspace)
    (hw : compiled host jn = some w) :
    VerdictsFollowAnswers host jn w ↔
      ∀ i test raw fs, CleanRun host jn w i test raw fs →
        outputAgrees w fs i (userOutFile i) = outputAgrees w fs i test.2 := by
  constructor
  · intro h i test raw fs hrun
    obtain ⟨m, hm, hres⟩ := h i test raw fs hrun
    rw [workStage1_point host jn w hw i test raw fs hrun.isTest hrun.isReport,
      verdict_clean host jn w i test raw fs hrun] at hm
    cases hm
    simp only [pointMessage, MessageResultJudge.pushBack, MessageResultJudge.new, List.nil_append,
      List.cons.injEq, Result.mk.injEq, and_true, true_and] at hres
    cases hout : outputAgrees w fs i (userOutFile i) <;>
      cases hans : outputAgrees w fs i test.2 <;> simp_all [ResultMean.toInt]
  · intro h i test raw fs hrun
    refine ⟨_, workStage1_point host jn w hw i test raw fs hrun.isTest hrun.isReport, ?_⟩
    rw [verdict_clean host jn w i test raw fs hrun, h i test raw fs hrun]
    rfl

/-! ### A wrong output that is accepted -/

/-- The submission of the example. -/
def exampleNode : JudgeQueueNode :=
  enque ⟨ascii "7", ascii "int main(){}", ascii "cpp", ascii "1", 1000, 256⟩ 5

/-- The path of an entry of the example's data directory. -/
def exampleData (name : String) : Path := (dataDir (problemDir exampleNode)).append (ascii name)

/-- The work directory of the example. -/
def exampleWork : Path := baseWorkPath.append (n2hexstr 0)

/-- The files of the example: one test, an answer, and an output of the user that differs. -/
def exampleFiles : FileSystem where
  exist _ := .ok true
  entries _ := .ok [⟨ascii "a0.in", by decide⟩, ⟨ascii "a0.out", by decide⟩]
  read p :=
    if p = exampleData "a0.out" then some (ascii "right")
    else if p = exampleWork.append (userOutFile 0) then some (ascii "wrong")
    else none
  writable _ := true

/-- A host on which every command succeeds. -/
def exampleHost : Host where
  files := exampleFiles
  uuid := 0
  createDirectories _ fs := .ok fs
  popen _ _ fs := some (ascii "1 1 4096 0 0 0 0", fs)
  residue _ := ⟨0, 0, 0, 0, 0, 0, 0⟩

/-- The workspace the example compiles in. -/
def exampleWorkspace : Workspace where
  lang := ⟨.cpp, by decide⟩
  problem := ⟨[(0, exampleData "a0.in")], [(0, exampleData "a0.out")], rfl⟩
  workPath := exampleWork
  files := exampleFiles.writeFile (exampleWork.append codeName) exampleNode.code

theorem compiled_example : compiled exampleHost exampleNode = some exampleWorkspace := by
  rfl

/-- The one run of the example is clean. -/
theorem cleanRun_example :
    CleanRun exampleHost exampleNode exampleWorkspace 0
      (exampleData "a0.in", exampleData "a0.out") ⟨1, 1, 4096, 0, 0, 0, 0⟩
      exampleWorkspace.files where
  isTest := by rfl
  isReport := by rfl
  error_eq := by rfl
  result_eq := by rfl
  memory_ok := by decide

theorem verdicts_follow_answers_iff_example :
    outputAgrees exampleWorkspace exampleWorkspace.files 0 (userOutFile 0) ≠
        outputAgrees exampleWorkspace exampleWorkspace.files 0 (exampleData "a0.out") ∧
      ¬ VerdictsFollowAnswers exampleHost exampleNode exampleWorkspace := by
  have hiff := verdicts_follow_answers_iff exampleHost exampleNode exampleWorkspace
    compiled_example
  have hdiffer : outputAgrees exampleWorkspace exampleWorkspace.files 0 (userOutFile 0) ≠
      outputAgrees exampleWorkspace exampleWorkspace.files 0 (exampleData "a0.out") := by
    decide
  exact ⟨hdiffer, fun h => hdiffer (hiff.mp h 0 _ _ _ cleanRun_example)⟩

/-- The example's output differs from the answer, there is no file `0.out` in the working
directory of the server, and the run is sent as accepted. -/
theorem wrong_output_accepted :
    compiled exampleHost exampleNode = some exampleWorkspace ∧
      ¬ VerdictsFollowAnswers exampleHost exampleNode exampleWorkspace := by
  refine ⟨compiled_example, ?_⟩
  intro h
  obtain ⟨m, hm, hres⟩ := h 0 _ _ _ cleanRun_example
  rw [workStage1_point _ _ _ compiled_example 0 _ _ _ cleanRun_example.isTest
    cleanRun_example.isReport, verdict_clean _ _ _ _ _ _ _ cleanRun_example] at hm
  cases hm
  revert hres
  decide

end Rojcpp.Judge
