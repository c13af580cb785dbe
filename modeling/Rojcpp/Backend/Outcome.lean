import Rojcpp.Backend.ResultHandler
import Rojcpp.Judge.Verdict

/-!
# From the judge worker to the result cache

The messages of `work_stage1` fed to the result handler.  On the way of a submission that compiles
and whose runs are all started, `messages_and_calls` lists both the messages and the calls of
`create` they cause: the text format written with a string stream on one side and taken apart by
a state machine on the other agree for every number and every file name.

Off that way nothing final is stored: an exception leaves the worker without a message, and the
handler drops every message with an error code.  `final_outcome_iff` says so for all submissions.
-/

namespace Rojcpp.Backend

open Rojcpp.Lib Rojcpp.Judge

/-! ### The messages -/

theorem getBaseNameLoop_append (name : Str) (hname : slash ∉ name) (p : Str) :
    ∀ iter, getBaseNameLoop iter (p ++ slash :: name) = slash :: name := by
  have hrest : ∀ iter, getBaseNameLoop iter name = iter := by
    induction name with
    | nil =>
      intro iter
      rfl
    | cons c s ih =>
      intro iter
      have hc : c ≠ slash := fun h => hname (by simp [h])
      rw [getBaseNameLoop, if_neg hc]
      exact ih (fun h => hname (List.mem_cons_of_mem _ h)) iter
  induction p with
  | nil =>
    intro iter
    rw [List.nil_append, getBaseNameLoop, if_pos rfl, hrest]
  | cons c s ih =>
    intro iter
    rw [List.cons_append, getBaseNameLoop]
    exact ih _

/-- `getBaseName` of the path of a test file is its file name. -/
theorem getBaseName_entry (path p : Path) (h : EntryOf (dataDir path) p) :
    getBaseName p = Path.filename p := by
  obtain ⟨name, rfl, hname⟩ := entryOf_dataDir path p h
  rw [getBaseName, getBaseNameLoop_append name hname, filename_of_append _ _ hname]
  rfl

/-- The message of one test as it is meant: the number of the test, the number of tests and the
two file names, with the one result. -/
def pointReply (key : Str) (n i : ℕ) (test : Path × Path) (r : Result) : MessageResultJudge where
  code := JudgeResultId.success.toInt
  key := key
  msg := decimal i ++ ascii "," ++ decimal n ++ ascii "," ++ Path.filename test.1 ++ ascii "," ++
    Path.filename test.2
  results := [r]

/-- The message with the number of tests. -/
def sizeReply (key : Str) (n : ℕ) : MessageResultJudge where
  code := JudgeResultId.success.toInt
  key := key
  msg := ascii "allSize:" ++ decimal n
  results := []

/-- The message with all results. -/
def allReply (key : Str) (rs : List Result) : MessageResultJudge where
  code := JudgeResultId.success.toInt
  key := key
  msg := ascii "ALL"
  results := rs

/-- The submission's problem is the one in its directory. -/
theorem compiled_problem (host : Host) (jn : JudgeQueueNode) (w : Workspace)
    (hw : compiled host jn = some w) : Problem.load host.files (problemDir jn) = .ok w.problem := by
  rw [compiled] at hw
  split at hw
  · cases hw
  split at hw
  · cases hw
  rename_i w' hw'
  split at hw
  · cases hw
  split at hw
  · cases hw
  cases hw
  obtain ⟨p, hp, hw'⟩ := bind_ok_iff.mp hw'
  obtain ⟨fs, -, hw'⟩ := bind_ok_iff.mp hw'
  cases hw'
  exact hp

/-- The names in a test's message are those of the files. -/
theorem pointMessage_eq (host : Host) (jn : JudgeQueueNode) (w : Workspace)
    (hw : compiled host jn = some w) (n i : ℕ) (test : Path × Path)
    (htest : test ∈ w.problem.tests) (r : Result) :
    pointMessage jn.key n i test r = pointReply jn.key n i test r := by
  have hload := compiled_problem host jn w hw
  obtain ⟨hin, hout⟩ := List.of_mem_zip htest
  obtain ⟨f, hf, hf'⟩ := List.mem_map.mp hin
  obtain ⟨g, hg, hg'⟩ := List.mem_map.mp hout
  have hin' : EntryOf (dataDir (problemDir jn)) test.1 :=
    hf' ▸ load_entries _ _ _ hload f (List.mem_append_left _ hf)
  have hout' : EntryOf (dataDir (problemDir jn)) test.2 :=
    hg' ▸ load_entries _ _ _ hload g (List.mem_append_right _ hg)
  rw [pointMessage, getBaseName_entry _ _ hin', getBaseName_entry _ _ hout']
  rfl

/-- The messages of the tests, as they are meant. -/
theorem pointMessages_eq (key : Str) (n : ℕ) (tests : List (Path × Path))
    (h : ∀ i r, ∀ test ∈ tests, pointMessage key n i test r = pointReply key n i test r) :
    ∀ (i : ℕ) (rs : List Result), pointMessages key n i tests rs =
      (tests.zip rs).mapIdx fun j p => pointReply key n (i + j) p.1 p.2 := by
  induction tests with
  | nil =>
    intro i rs
    simp [pointMessages]
  | cons test tests ih =>
    intro i rs
    cases rs with
    | nil => simp [pointMessages]
    | cons r rs =>
      rw [pointMessages, h i r test (by simp),
        ih (fun i r t ht => h i r t (List.mem_cons_of_mem _ ht)), List.zip_cons_cons,
        List.mapIdx_cons, Nat.add_zero]
      refine congrArg (List.cons _) ?_
      apply List.ext_getElem?
      intro j
      simp only [List.getElem?_mapIdx, show i + 1 + j = i + (j + 1) by omega]

/-- The messages of a submission that compiles, up to the run that could not be started. -/
theorem workStage1_messages (host : Host) (jn : JudgeQueueNode) (w : Workspace)
    (hw : compiled host jn = some w) :
    workStage1 host jn =
      sizeReply jn.key w.problem.inputData.length ::
        (((w.problem.tests.zip (verdicts host jn w)).mapIdx fun i p =>
            pointReply jn.key w.problem.inputData.length i p.1 p.2) ++
          if (reports host jn w).length = w.problem.inputData.length then
            [allReply jn.key (verdicts host jn w)] else []) := by
  have hlen : (verdicts host jn w).length = (reports host jn w).length := by
    rw [verdicts, verdictsFrom_length]
    exact min_eq_right (reportsFrom_length_le host jn w _ _ _)
  have hpoints := pointMessages_eq jn.key w.problem.inputData.length w.problem.tests
    (fun i r test ht => pointMessage_eq host jn w hw _ i test ht r) 0 (verdicts host jn w)
  simp only [Nat.zero_add] at hpoints
  rw [workStage1_compiled host jn w hw, judgeAll, judgePoints_eq, ← hlen, ← hpoints,
    ← tests_length]
  rfl

/-! ### The calls -/

/-- A stored call with its numbers as they read. -/
def CreateCall.numbers (c : CreateCall) : ℕ × ℤ × ℤ × ℤ × Str :=
  (c.key.toNat, c.point.toInt, c.allPoint.toInt, c.resultCode.toInt, c.res)

theorem handleAll_append (db : Database) (ms ns : List MessageResultJudge) :
    handleAll db (ms ++ ns) = (do
      let cs ← handleAll db ms
      let ds ← handleAll db ns
      return cs ++ ds) := by
  induction ms with
  | nil =>
    rw [List.nil_append, handleAll]
    cases handleAll db ns <;> rfl
  | cons m ms ih =>
    rw [List.cons_append, handleAll, handleAll, ih]
    cases resultHandler db m with
    | error e => rfl
    | ok c =>
      cases handleAll db ms with
      | error e => rfl
      | ok cs =>
        cases handleAll db ns with
        | error e => rfl
        | ok ds => simp [bind, Except.bind, pure, Except.pure]

theorem handleAll_size (db : Database) (key : Str) (n : ℕ) (ms : List MessageResultJudge) :
    handleAll db (sizeReply key n :: ms) = handleAll db ms := by
  have hsize : resultHandler db (sizeReply key n) = .ok none := by rfl
  rw [handleAll, hsize]
  cases handleAll db ms <;> rfl

/-- The call for one test. -/
def pointCall (key : Str) (n i : ℕ) (r : Result) : CreateCall :=
  ⟨fromChars key 0, Int32.ofNat i, Int32.ofNat n, 0, dumpToJson [r]⟩

theorem handleAll_points (db : Database) (key : Str) (n : ℕ) (tests : List (Path × Path)) :
    ∀ (i : ℕ) (rs : List Result), rs.length = tests.length →
      handleAll db (pointMessages key n i tests rs) =
        .ok (rs.mapIdx fun j r => pointCall key n (i + j) r) := by
  induction tests with
  | nil =>
    intro i rs hlen
    rw [List.eq_nil_of_length_eq_zero hlen]
    rfl
  | cons test tests ih =>
    intro i rs hlen
    cases rs with
    | nil => cases hlen
    | cons r rs =>
      rw [pointMessages, handleAll, resultHandler_point,
        ih (i + 1) rs (Nat.succ.inj hlen), List.mapIdx_cons]
      simp only [bind, Except.bind, pure, Except.pure, Option.toList_some, List.singleton_append,
        show ∀ j, i + 1 + j = i + (j + 1) by omega]
      rfl

/-- The call for all results. -/
def allCall (key : Str) (rs : List Result) : CreateCall :=
  ⟨fromChars key 0, -1, Int32.ofNat rs.length, finalResult rs, dumpToJson rs⟩

theorem resultHandler_all {db : Database} {key : Str}
    (hdb : ∀ q, NamesRow key q → db q = .ok ()) (rs : List Result) :
    resultHandler db (allReply key rs) = .ok (some (allCall key rs)) := by
  show (storeAll db key (fromChars key 0) rs).map some = _
  rw [storeAll_ok hdb]
  rfl

/-- The replies to a submission all of whose runs are started. -/
theorem workStage1_replies {host : Host} {jn : JudgeQueueNode} {w : Workspace}
    (hw : compiled host jn = some w)
    (hlen : (verdicts host jn w).length = w.problem.inputData.length) :
    workStage1 host jn = sizeReply jn.key w.problem.inputData.length ::
      (pointMessages jn.key w.problem.inputData.length 0 w.problem.tests (verdicts host jn w) ++
        [allReply jn.key (verdicts host jn w)]) := by
  have htests : (verdicts host jn w).length = w.problem.tests.length := by rw [hlen, tests_length]
  rw [workStage1_compiled host jn w hw, judgeAll, judgePoints_eq]
  simp only
  rw [← reports, ← verdicts, if_pos htests]
  rfl

/-- The calls for them, by a database that takes the statements about the submission's row. -/
theorem handleAll_replies {db : Database} {host : Host} {jn : JudgeQueueNode} {w : Workspace}
    (hdb : ∀ q, NamesRow jn.key q → db q = .ok ()) (hw : compiled host jn = some w)
    (hlen : (verdicts host jn w).length = w.problem.inputData.length) :
    handleAll db (workStage1 host jn) =
      .ok ((verdicts host jn w).mapIdx
        (fun i r => pointCall jn.key w.problem.inputData.length i r) ++
          [allCall jn.key (verdicts host jn w)]) := by
  have htests : (verdicts host jn w).length = w.problem.tests.length := by rw [hlen, tests_length]
  have hpoints := handleAll_points db jn.key w.problem.inputData.length w.problem.tests 0
    (verdicts host jn w) htests
  simp only [Nat.zero_add] at hpoints
  have hall : handleAll db [allReply jn.key (verdicts host jn w)] =
      .ok [allCall jn.key (verdicts host jn w)] := by
    rw [handleAll, resultHandler_all hdb]
    rfl
  rw [workStage1_replies hw hlen, handleAll_size, handleAll_append, hpoints, hall]
  rfl

/-- The handler reads the number of the submission back from the key. -/
theorem fromChars_key {key : Str} {sid : ℕ} (hkey : key = decimal sid) (hsid : sid < 2 ^ 64) :
    (fromChars key 0).toNat = sid := by
  rw [hkey, fromChars_decimal sid hsid]
  exact UInt64.toNat_ofNat_of_lt' hsid

theorem ofNat_toInt (i : ℕ) (hi : i < 2 ^ 31) : (Int32.ofNat i).toInt = i := by
  rw [Int32.toInt_ofNat_of_lt hi]

/-- **Worker and handler agree on the text format.**  For a submission with fewer than `2 ^ 31`
tests that compiles and whose runs give the results `rs`, the worker sends the number of tests,
one message per test and the message with all results, and the handler turns them into one call
per test and the final call, with a database that takes the statements about the submission's
row. -/
theorem messages_and_calls (db : Database) (host : Host) (jn : JudgeQueueNode)
    (hdb : ∀ q, NamesRow jn.key q → db q = .ok ()) (sid : ℕ) (hkey : jn.key = decimal sid)
    (hsid : sid < 2 ^ 64) (w : Workspace) (hw : compiled host jn = some w)
    (hn : w.problem.inputData.length < 2 ^ 31) (rs : List Result)
    (hrs : verdicts host jn w = rs) (hlen : rs.length = w.problem.inputData.length) :
    workStage1 host jn =
        sizeReply jn.key w.problem.inputData.length ::
          (((w.problem.tests.zip rs).mapIdx fun i p =>
              pointReply jn.key w.problem.inputData.length i p.1 p.2) ++ [allReply jn.key rs]) ∧
      ∃ calls, handleAll db (workStage1 host jn) = .ok calls ∧
        calls.map CreateCall.numbers =
          (rs.mapIdx fun i r =>
              (sid, (i : ℤ), (w.problem.inputData.length : ℤ), 0, dumpToJson [r])) ++
            [(sid, -1, (w.problem.inputData.length : ℤ), (finalResult rs).toInt,
              dumpToJson rs)] := by
  subst hrs
  have hreports : (reports host jn w).length = w.problem.inputData.length := by
    rw [← hlen, verdicts, verdictsFrom_length]
    exact (min_eq_right (reportsFrom_length_le host jn w _ _ _)).symm
  have hkey' := fromChars_key hkey hsid
  constructor
  · rw [workStage1_messages host jn w hw, if_pos hreports]
  · refine ⟨_, handleAll_replies hdb hw hlen, ?_⟩
    rw [List.map_append, List.map_cons, List.map_nil]
    refine congrArg₂ (fun points last => points ++ last) ?_ ?_
    · apply List.ext_getElem
      · simp
      intro i hi hi'
      rw [List.length_map, List.length_mapIdx, hlen] at hi
      simp only [List.getElem_map, List.getElem_mapIdx, CreateCall.numbers, pointCall, hkey',
        ofNat_toInt i (by omega), ofNat_toInt _ hn]
      rfl
    · simp only [CreateCall.numbers, allCall, hkey', hlen, ofNat_toInt _ hn]
      rfl

/-- A database that takes every statement. -/
def openDatabase : Database := fun _ => .ok ()

theorem messages_and_calls_example :
    workStage1 exampleHost exampleNode =
        sizeReply (ascii "7") 1 ::
          ([pointReply (ascii "7") 1 0 (exampleData "a0.in", exampleData "a0.out")
            ⟨1, 1, 4096, 0, 0, 0, 0⟩] ++ [allReply (ascii "7") [⟨1, 1, 4096, 0, 0, 0, 0⟩]]) ∧
      ∃ calls, handleAll openDatabase (workStage1 exampleHost exampleNode) = .ok calls ∧
        calls.map CreateCall.numbers =
          [(7, 0, 1, 0, dumpToJson [⟨1, 1, 4096, 0, 0, 0, 0⟩])] ++
            [(7, -1, 1, 0, dumpToJson [⟨1, 1, 4096, 0, 0, 0, 0⟩])] :=
  messages_and_calls openDatabase exampleHost exampleNode (fun _ _ => rfl) 7 (by decide) (by decide)
    exampleWorkspace compiled_example (by decide) [⟨1, 1, 4096, 0, 0, 0, 0⟩] (by rfl) (by rfl)

/-! ### Final outcomes -/

/-- A reply that ends a submission: one with an error code, or the one with all results. -/
def isTerminal (m : MessageResultJudge) : Bool :=
  m.code != JudgeResultId.success.toInt || m.msg == ascii "ALL"

/-- The handler stores a final outcome for the submission `sid` when it receives `m`. -/
def RecordsFinal (db : Database) (m : MessageResultJudge) (sid : ℕ) : Prop :=
  ∃ c, resultHandler db m = .ok (some c) ∧ c.key.toNat = sid ∧ c.point = -1

/-- The worker sends one reply that ends the submission, under the submission's key, and the
handler stores a final outcome for it. -/
def OneFinalOutcome (db : Database) (host : Host) (jn : JudgeQueueNode) (sid : ℕ) : Prop :=
  ∃ m, (workStage1 host jn).filter isTerminal = [m] ∧ m.key = jn.key ∧ RecordsFinal db m sid

/-- The submission compiles and every one of its runs is started. -/
def RunsThrough (host : Host) (jn : JudgeQueueNode) : Prop :=
  ∃ w, compiled host jn = some w ∧ (reports host jn w).length = w.problem.inputData.length

theorem isTerminal_size (key : Str) (n : ℕ) : isTerminal (sizeReply key n) = false := by rfl

theorem isTerminal_point (key : Str) (n i : ℕ) (test : Path × Path) (r : Result) :
    isTerminal (pointReply key n i test r) = false := by
  obtain ⟨d, ds, hd⟩ := List.exists_cons_of_ne_nil (decimal_ne_nil i)
  have hdig : isDigit d = true := decimal_isDigit i d (by simp [hd])
  have hall : (pointReply key n i test r).msg ≠ ascii "ALL" := by
    intro h
    simp only [pointReply, hd, List.cons_append] at h
    rw [show ascii "ALL" = 'A'.toUInt8 :: ascii "LL" from rfl] at h
    rw [(List.cons.inj h).1] at hdig
    exact absurd hdig (by decide)
  simp only [isTerminal, Bool.or_eq_false_iff, beq_eq_false_iff_ne]
  exact ⟨rfl, hall⟩

theorem isTerminal_all (key : Str) (rs : List Result) : isTerminal (allReply key rs) = true := by
  rfl

/-- The terminal replies of a submission that compiles. -/
theorem filter_terminal (host : Host) (jn : JudgeQueueNode) (w : Workspace)
    (hw : compiled host jn = some w) :
    (workStage1 host jn).filter isTerminal =
      if (reports host jn w).length = w.problem.inputData.length then
        [allReply jn.key (verdicts host jn w)] else [] := by
  have hpoints : (((w.problem.tests.zip (verdicts host jn w)).mapIdx fun i p =>
      pointReply jn.key w.problem.inputData.length i p.1 p.2)).filter isTerminal = [] := by
    rw [List.filter_eq_nil_iff]
    intro m hm
    obtain ⟨i, hi, rfl⟩ := List.mem_mapIdx.mp hm
    simp [isTerminal_point]
  rw [workStage1_messages host jn w hw, List.filter_cons_of_neg (by simp [isTerminal_size]),
    List.filter_append, hpoints, List.nil_append]
  split
  · rw [List.filter_cons_of_pos (isTerminal_all _ _), List.filter_nil]
  · rfl

/-- The handler drops a message with an error code. -/
theorem resultHandler_error (db : Database) (m : MessageResultJudge)
    (hm : m.code ≠ JudgeResultId.success.toInt) : resultHandler db m = .ok none := by
  rw [resultHandler, if_pos hm]

/-- **When a submission gets its one final outcome.**  With a database that takes the statements
about its row, a submission of the backend is answered by one terminal reply whose outcome is stored
if and only if it compiles and all its runs are started. -/
theorem final_outcome_iff (db : Database) (host : Host) (jn : JudgeQueueNode)
    (hdb : ∀ q, NamesRow jn.key q → db q = .ok ()) (sid : ℕ) (hkey : jn.key = decimal sid)
    (hsid : sid < 2 ^ 64) :
    OneFinalOutcome db host jn sid ↔ RunsThrough host jn := by
  constructor
  · rintro ⟨m, hm, -, c, hc, -, -⟩
    have hmem : m ∈ (workStage1 host jn).filter isTerminal := by
      rw [hm]
      exact List.mem_singleton_self m
    cases hw : compiled host jn with
    | none =>
      have hcode : m.code ≠ JudgeResultId.success.toInt := by
        rcases workStage1_not_compiled host jn hw m (List.mem_of_mem_filter hmem) with h | h <;>
          rw [h] <;> decide
      rw [resultHandler_error db m hcode] at hc
      cases hc
    | some w =>
      refine ⟨w, hw, ?_⟩
      rw [filter_terminal host jn w hw] at hm
      by_contra hlen
      rw [if_neg hlen] at hm
      cases hm
  · rintro ⟨w, hw, hlen⟩
    have hkey' := fromChars_key hkey hsid
    refine ⟨allReply jn.key (verdicts host jn w), ?_, rfl, _, resultHandler_all hdb _, hkey',
      rfl⟩
    rw [filter_terminal host jn w hw, if_pos hlen]

theorem final_outcome_iff_example : OneFinalOutcome openDatabase exampleHost exampleNode 7 :=
  (final_outcome_iff openDatabase exampleHost exampleNode (fun _ _ => rfl) 7 (by decide)
    (by decide)).mpr ⟨exampleWorkspace, compiled_example, by rfl⟩

/-- A submission in an unsupported language is answered, but nothing is stored for it; one for a
problem that is not there is not even answered. -/
theorem outcome_missing :
    ¬ OneFinalOutcome openDatabase exampleHost { exampleNode with language := ascii "rust" } 7 ∧
      workStage1 { exampleHost with files := { exampleFiles with exist := fun _ => .ok false } }
        exampleNode = [] := by
  constructor
  · rintro ⟨m, hm, -, c, hc, -, -⟩
    have hreply : workStage1 exampleHost { exampleNode with language := ascii "rust" } =
        [MessageResultJudge.new (ascii "7") .invalidConfig
          (ascii "unsupport language : rust")] := by
      rfl
    have hmem : m ∈ (workStage1 exampleHost
        { exampleNode with language := ascii "rust" }).filter isTerminal := by
      rw [hm]
      exact List.mem_singleton_self m
    rw [hreply] at hmem
    rw [List.mem_singleton.mp (List.mem_of_mem_filter hmem),
      resultHandler_error _ _ (by decide)] at hc
    cases hc
  · rfl

end Rojcpp.Backend
