import Rojcpp.Cpp.Text

/-!
# Results and messages of the judge server

The two enumerations of `judger.h`, the plain record of a run, and the two messages: a submission
travels as `MessageSendJudge`, and the judge server answers with `MessageResultJudge`.  A message
may have come over the wire, so its code is the integer the wire carries, whether or not that is
one of the enumerators.
-/

namespace Rojcpp.Judge

open Rojcpp.Lib

/-- `enum judgeResult_id`. -/
inductive JudgeResultId where
  | success
  | invalidConfig
  | forkFailed
  | pthreadFailed
  | waitFailed
  | rootRequired
  | loadSeccompFailed
  | setrlimitFailed
  | dup2Failed
  | setuidFailed
  | execveFailed
  | spjError
  | compileFail
  deriving DecidableEq, Repr

/-- The value of an enumerator. -/
def JudgeResultId.toInt : JudgeResultId → Int32
  | .success => 0
  | .invalidConfig => -1
  | .forkFailed => -2
  | .pthreadFailed => -3
  | .waitFailed => -4
  | .rootRequired => -5
  | .loadSeccompFailed => -6
  | .setrlimitFailed => -7
  | .dup2Failed => -8
  | .setuidFailed => -9
  | .execveFailed => -10
  | .spjError => -11
  | .compileFail => -12

/-- `enum RESULT_MEAN`. -/
inductive ResultMean where
  | wait
  | wrongAnswer
  | accept
  | cpuTimeLimitExceeded
  | realTimeLimitExceeded
  | memoryLimitExceeded
  | runtimeError
  | systemError
  deriving DecidableEq, Repr

/-- The value of an enumerator. -/
def ResultMean.toInt : ResultMean → Int32
  | .wait => -2
  | .wrongAnswer => -1
  | .accept => 0
  | .cpuTimeLimitExceeded => 1
  | .realTimeLimitExceeded => 2
  | .memoryLimitExceeded => 3
  | .runtimeError => 4
  | .systemError => 5

/-- `struct result`. -/
structure Result where
  cpuTime : Int32
  realTime : Int32
  memory : Int64
  signal : Int32
  exitCode : Int32
  error : Int32
  result : Int32
  deriving DecidableEq, Repr

/-- `MessageSendJudge`. -/
structure MessageSendJudge where
  key : Str
  code : Str
  language : Str
  pid : Str
  timeLimit : Int32
  memoryLimit : Int32
  deriving DecidableEq, Repr

/-- `MessageResultJudge`. -/
structure MessageResultJudge where
  code : Int32
  key : Str
  msg : Str
  results : List Result
  deriving DecidableEq, Repr

/-- The constructor `MessageResultJudge(key, code, msg)`. -/
def MessageResultJudge.new (key : Str) (code : JudgeResultId) (msg : Str) : MessageResultJudge :=
  ⟨code.toInt, key, msg, []⟩

/-- `push_back(result &)`. -/
def MessageResultJudge.pushBack (m : MessageResultJudge) (r : Result) : MessageResultJudge :=
  { m with results := m.results ++ [r] }

/-- The object `dump_to_json` writes for one result. -/
def Result.toJson (r : Result) : Str :=
  ascii "\x7b\"cpu_time\":" ++ toStringInt r.cpuTime ++
  ascii ",\"real_time\":" ++ toStringInt r.realTime ++
  ascii ",\"memory\":" ++ toStringLong r.memory ++
  ascii ",\"signal\":" ++ toStringInt r.signal ++
  ascii ",\"exit_code\":" ++ toStringInt r.exitCode ++
  ascii ",\"error\":" ++ toStringInt r.error ++
  ascii ",\"result\":" ++ toStringInt r.result ++ ascii "\x7d"

/-- The loop of `dump_to_json`: a comma behind every object but the last. -/
def resultsToJson : List Result → Str
  | [] => []
  | [r] => r.toJson
  | r :: rs => r.toJson ++ ascii "," ++ resultsToJson rs

/-- `dump_to_json`. -/
def dumpToJson (rs : List Result) : Str := ascii "[" ++ resultsToJson rs ++ ascii "]"

end Rojcpp.Judge
