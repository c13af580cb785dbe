import Rojcpp.Judge.Check
import Rojcpp.Judge.JudgeArgs
import Rojcpp.Judge.Problem
import Rojcpp.Judge.Result

/-!
# The judge worker

`work_stage1` takes a submission from the queue through its checks, the compilation and the runs
on the test files, and answers with messages.  Everything the worker cannot decide itself is a
`Host`: the files it finds, the directory it asks for, and what the commands print.  The worker
model returns the messages in the order they are written.

An exception leaves `work_stage1` through its `catch`, which prints it; the messages written
before it stay, and none follows.  `judger_core` is started through `popen` and prints seven
numbers; a run that prints fewer leaves the other fields of `RESULT` as they were on the stack.
-/

namespace Rojcpp.Judge

open Rojcpp.Lib

/-! ### The host -/

/-- What the machine the worker runs on does.  `popen k cmd fs` is the `k`-th command of a
submission, with what it prints and the files it leaves; `none` is a pipe that could not be
opened.  `residue k` is the content of the uninitialised `RESULT` of that command. -/
structure Host where
  files : FileSystem
  uuid : UInt64
  createDirectories : Path → FileSystem → Except Str FileSystem
  popen : ℕ → Str → FileSystem → Option (Str × FileSystem)
  residue : ℕ → Result

/-- The copying of `exec`: `fgets` cuts the output into pieces of at most 127 bytes that end
behind a newline, and each piece is written out as a C string.  `room` is what the buffer still
takes and `cut` says that a NUL stands in the piece already. -/
def fgetsCopy : ℕ → Bool → Str → Str
  | _, _, [] => []
  | room, cut, c :: s =>
    let cut' := cut || c == 0
    let rest := if c = '\n' ∨ room ≤ 1 then fgetsCopy 127 false s
      else fgetsCopy (room - 1) cut' s
    if cut' then rest else c :: rest

/-- `exec`. -/
def exec (host : Host) (k : ℕ) (cmd : Str) (fs : FileSystem) : Except Str (Str × FileSystem) :=
  match host.popen k (cStr cmd) fs with
  | none => .error (ascii "popen() failed!")
  | some (out, fs') => .ok (fgetsCopy 127 false out, fs')

/-- The seven reads of `__judger`. -/
def readResult (out : Str) (old : Result) : Result :=
  let cpuTime := (IStream.ofStr out).extractInt old.cpuTime
  let realTime := cpuTime.2.extractInt old.realTime
  let memory := realTime.2.extractLong old.memory
  let signal := memory.2.extractInt old.signal
  let exitCode := signal.2.extractInt old.exitCode
  let error := exitCode.2.extractInt old.error
  let result := error.2.extractInt old.result
  ⟨cpuTime.1, realTime.1, memory.1, signal.1, exitCode.1, error.1, result.1⟩

/-- `__judger`. -/
def judger (host : Host) (k : ℕ) (args : JudgeArgs) (fs : FileSystem) :
    Except Str (Result × FileSystem) := do
  let out ← exec host k (judgerBin ++ args.toStr) fs
  return (readResult out.1 (host.residue k), out.2)

/-! ### Judging one test -/

/-- The memory test of `Judge`, in which the reported memory is converted to `std::size_t`. -/
def overMemory (args : JudgeArgs) (r : Result) : Bool :=
  args.maxMemory != unlimit && args.maxMemory - memoryBase ≤ r.memory.toUInt64

/-- What `Judge` makes of the report `r` of a run that left the files `fs`. -/
def verdict (args : JudgeArgs) (outFile : Path) (fs : FileSystem) (r : Result) : Result :=
  if r.error ≠ 0 ∨ r.result ≠ 0 then r
  else if overMemory args r then { r with result := ResultMean.memoryLimitExceeded.toInt }
  else if noipstyleCheck (fs.read args.outputPath) (fs.read outFile) then r
  else { r with result := ResultMean.wrongAnswer.toInt }

/-- `Judge`. -/
def judge (host : Host) (k : ℕ) (args : JudgeArgs) (outFile : Path) (fs : FileSystem) :
    Except Str (Result × FileSystem) := do
  let r ← judger host k args fs
  return (verdict args outFile r.2 r.1, r.2)

/-! ### The queue -/

/-- `judge_Queue_node`, without the members no code reads. -/
structure JudgeQueueNode where
  fd : Int32
  key : Str
  code : Str
  language : Str
  pid : Str
  problemPath : Path
  timeLimit : Int32
  memoryLimit : Int32
  deriving DecidableEq, Repr

/-- The node `enque` appends to the queue. -/
def enque (msj : MessageSendJudge) (fd : Int32) : JudgeQueueNode where
  fd := fd
  key := msj.key
  code := msj.code
  language := msj.language
  pid := msj.pid
  problemPath := []
  timeLimit := msj.timeLimit
  memoryLimit := msj.memoryLimit

/-! ### `work_stage1` -/

/-- A language `is_sport_language` accepts. -/
abbrev SportLang := { lang : SuportLang // lang ≠ .unsuport }

/-- The language of a name that `is_sport_language` accepts. -/
def SportLang.ofName (lang : Str) (h : ¬isSportLanguage lang = false) : SportLang :=
  ⟨stringToLang lang, ne_unsuport h⟩

/-- What `work_stage1` knows once the code is written. -/
structure Workspace where
  lang : SportLang
  problem : Problem
  workPath : Path
  files : FileSystem

/-- `n2hexstr`. -/
def n2hexstr (w : UInt64) : Str :=
  (List.range 16).map fun i =>
    (ascii "0123456789ABCDEF").getD ((w >>> UInt64.ofNat (60 - 4 * i)) &&& 15).toNat 0

/-- `code_name`. -/
def codeName : Str := ascii "main.code"

/-- The directory of the problem a submission is for. -/
def problemDir (jn : JudgeQueueNode) : Path :=
  if jn.problemPath = [] then baseProblemPath.append jn.pid else jn.problemPath

/-- Steps 2 and 3: the problem, the work directory and the code. -/
def prepare (host : Host) (jn : JudgeQueueNode) (lang : SportLang) : Except Str Workspace := do
  let problem ← Problem.load host.files (problemDir jn)
  let workPath := baseWorkPath.append (n2hexstr host.uuid)
  let fs ← host.createDirectories workPath host.files
  return ⟨lang, problem, workPath, fs.writeFile (workPath.append codeName) jn.code⟩

/-- The test of step 4.1. -/
def compileFailed (r : Result) : Bool := r.result != 0 || r.error != 0 || r.exitCode != 0

/-- The text of a failed compilation: the errors, or the log when there are none. -/
def compileText (args : JudgeArgs) (fs : FileSystem) : Str :=
  if fs.readFile args.errorPath = [] then fs.readFile args.logPath else fs.readFile args.errorPath

/-- The paths of the test files, pair by pair. -/
def Problem.tests (p : Problem) : List (Path × Path) :=
  (p.inputData.map Prod.snd).zip (p.outputData.map Prod.snd)

/-- `user_out_file`. -/
def userOutFile (i : ℕ) : Str := decimal i ++ ascii ".out"

/-- An `int` converted to `std::size_t`. -/
def toSize (x : Int32) : UInt64 := x.toInt64.toUInt64

/-- The arguments of the `i`-th run. -/
def pointArgs (jn : JudgeQueueNode) (w : Workspace) (i : ℕ) (inFile : Path) : JudgeArgs :=
  getJudgeArgs w.lang.1 w.lang.2 w.workPath codeName inFile (userOutFile i)
    (toSize jn.timeLimit) (toSize jn.memoryLimit)

/-- The loop of `getBaseName`; an iterator is the text from there on. -/
def getBaseNameLoop : Str → Str → Str
  | iter, [] => iter
  | iter, c :: s => getBaseNameLoop (if c = slash then c :: s else iter) s

/-- `getBaseName`.  A name without a separator loses its first byte. -/
def getBaseName (file : Str) : Str := (getBaseNameLoop file file).tail

/-- The message of the `i`-th of `n` tests. -/
def pointMessage (key : Str) (n i : ℕ) (test : Path × Path) (r : Result) : MessageResultJudge :=
  (MessageResultJudge.new key .success (decimal i ++ ascii "," ++ decimal n ++ ascii "," ++
    getBaseName test.1 ++ ascii "," ++ getBaseName test.2)).pushBack r

/-- The loop of step 5, with `all` for `sendALLmsg`, and the final message. -/
def judgePoints (host : Host) (jn : JudgeQueueNode) (w : Workspace) :
    ℕ → List (Path × Path) → FileSystem → MessageResultJudge → List MessageResultJudge
  | _, [], _, all => [all]
  | i, test :: tests, fs, all =>
    match judge host (i + 1) (pointArgs jn w i test.1) (userOutFile i) fs with
    | .error _ => []
    | .ok (r, fs') =>
      pointMessage jn.key w.problem.inputData.length i test r ::
        judgePoints host jn w (i + 1) tests fs' (all.pushBack r)

/-- The messages on the way of a submission that compiled. -/
def judgeAll (host : Host) (jn : JudgeQueueNode) (w : Workspace) : List MessageResultJudge :=
  MessageResultJudge.new jn.key .success
      (ascii "allSize:" ++ decimal w.problem.inputData.length) ::
    judgePoints host jn w 0 w.problem.tests w.files
      (MessageResultJudge.new jn.key .success (ascii "ALL"))

/-- `work_stage1`: the messages it writes, in order. -/
def workStage1 (host : Host) (jn : JudgeQueueNode) : List MessageResultJudge :=
  if hlang : isSportLanguage jn.language = false then
    [MessageResultJudge.new jn.key .invalidConfig (ascii "unsupport language : " ++ jn.language)]
  else
    match prepare host jn (.ofName jn.language hlang) with
    | .error _ => []
    | .ok w =>
      let args := compileCPPArgs w.workPath codeName
      match judger host 0 args w.files with
      | .error _ => []
      | .ok (r, fs) =>
        if compileFailed r then
          [MessageResultJudge.new jn.key .compileFail (compileText args fs)]
        else judgeAll host jn { w with files := fs }

end Rojcpp.Judge
