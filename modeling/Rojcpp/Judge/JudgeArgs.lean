import Rojcpp.Cpp.Files

/-!
# Languages and the arguments of the judger

The command line the judge server hands to `judger_core`: `judge_args`, its constructor, the
constructors for compiling and for judging, and the conversion to a string.  Sizes and times are
`std::size_t` and wrap; `512__MB` is 512 gibibytes, because the literal operator multiplies by
1024 three times.

`string_to_lang` sends the Python names to C++ too, so no submission is judged as Python.
-/

namespace Rojcpp.Judge

open Rojcpp.Lib

/-! ### Languages -/

/-- `enum class SUPORT_LANG`. -/
inductive SuportLang where
  | cpp
  | py3
  | unsuport
  deriving DecidableEq, Repr

/-- `std::tolower` in the C locale. -/
def toLower (c : UInt8) : UInt8 := if 65 ≤ c ∧ c ≤ 90 then c + 32 else c

/-- `iequal`. -/
def iequal (s t : Str) : Bool := s.map toLower == t.map toLower

/-- `more_iequal`. -/
def moreIequal (s : Str) (ts : List Str) : Bool := ts.any (iequal s)

/-- `string_to_lang`. -/
def stringToLang (lang : Str) : SuportLang :=
  if iequal lang (ascii "c++") || iequal lang (ascii "cpp") then .cpp
  else if moreIequal lang [ascii "py", ascii "py3", ascii "python3", ascii "python"] then .cpp
  else .unsuport

/-- `is_sport_language`. -/
def isSportLanguage (lang : Str) : Bool := stringToLang lang != .unsuport

theorem ne_unsuport {lang : Str} (h : ¬isSportLanguage lang = false) :
    stringToLang lang ≠ .unsuport := by
  intro hlang
  rw [isSportLanguage, hlang] at h
  exact h rfl

/-! ### The configuration -/

/-- `__CONFIG::BASE_PROBLEM_PATH`. -/
def baseProblemPath : Path := ascii "/home/rainboy/mycode/RainboyOJ/problems/problems"

/-- `__CONFIG::BASE_WORK_PATH`. -/
def baseWorkPath : Path := ascii "/home/rainboy/tmp"

/-- `__CONFIG::judger_bin`. -/
def judgerBin : Path := ascii "/usr/bin/judger_core"

/-- `__CONFIG::memory_base`. -/
def memoryBase : UInt64 := 16 * 1024 * 1024

/-- `unlimit`. -/
def unlimit : UInt64 := 0

/-- `1ull<<30`. -/
def gib : UInt64 := 1 <<< (30 : UInt64)

/-- `operator ""__MB`. -/
def mb (a : UInt64) : UInt64 := a * 1024 * 1024 * 1024

/-! ### The arguments -/

/-- `judge_args`. -/
structure JudgeArgs where
  maxCpuTime : UInt64
  maxRealTime : UInt64
  maxProcessNumber : UInt64
  maxMemory : UInt64
  maxStack : UInt64
  maxOutputSize : UInt64
  seccompRuleName : Str
  cwd : Path
  inputPath : Path
  outputPath : Path
  errorPath : Path
  logPath : Path
  exePath : Path
  args : List Str
  env : List Str
  gid : Int32
  uid : Int32

/-- The constructor of `judge_args`, which adds the base memory to a limit. -/
def JudgeArgs.new (maxCpuTime maxRealTime maxProcessNumber maxMemory maxStack
    maxOutputSize : UInt64) (seccompRuleName : Str)
    (cwd inputPath outputPath errorPath logPath exePath : Path) (gid uid : Int32) : JudgeArgs where
  maxCpuTime := maxCpuTime
  maxRealTime := maxRealTime
  maxProcessNumber := maxProcessNumber
  maxMemory := if maxMemory = unlimit then unlimit else maxMemory + memoryBase
  maxStack := maxStack
  maxOutputSize := maxOutputSize
  seccompRuleName := seccompRuleName
  cwd := cwd
  inputPath := inputPath
  outputPath := outputPath
  errorPath := errorPath
  logPath := logPath
  exePath := exePath
  args := []
  env := []
  gid := gid
  uid := uid

/-- The text of one option and the blank behind it. -/
def option (name : String) (value : Str) : Str := ascii "--" ++ ascii name ++ ascii "=" ++
  value ++ ascii " "

/-- A word between double quotes. -/
def inQuotes (s : Str) : Str := ascii "\"" ++ s ++ ascii "\""

/-- `judge_args::operator std::string`. -/
def JudgeArgs.toStr (a : JudgeArgs) : Str :=
  ascii " " ++
  option "max_cpu_time" (toStringULL a.maxCpuTime) ++
  option "max_real_time" (toStringULL a.maxRealTime) ++
  option "max_process_number" (toStringULL a.maxProcessNumber) ++
  option "max_memory" (toStringULL a.maxMemory) ++
  option "max_stack" (toStringULL a.maxStack) ++
  option "max_output_size" (toStringULL a.maxOutputSize) ++
  option "seccomp_rule_name" a.seccompRuleName ++
  option "cwd" (quotedPath a.cwd) ++
  option "input_path" (quotedPath a.inputPath) ++
  option "output_path" (quotedPath a.outputPath) ++
  option "error_path" (quotedPath a.errorPath) ++
  option "log_path" (quotedPath a.logPath) ++
  option "exe_path" (quotedPath a.exePath) ++
  a.args.flatMap (fun e => option "args" (inQuotes e)) ++
  a.env.flatMap (fun e => option "env" (inQuotes e)) ++
  option "gid" (toStringInt a.gid) ++
  option "uid" (toStringInt a.uid)

/-- `compile_CPP_args`. -/
def compileCPPArgs (cwd : Path) (codeName : Str) : JudgeArgs :=
  { JudgeArgs.new (10 * 1000) (90 * 1000) unlimit unlimit unlimit (512 * gib) (ascii "null")
      cwd (ascii "/dev/null") (cwd.append (ascii "compile_output"))
      (cwd.append (ascii "compile_error")) (cwd.append (ascii "compile_log"))
      (ascii "/usr/bin/g++") 0 0 with
    args := [ascii "-x", ascii "c++", ascii "-o", Path.stem codeName, codeName]
    env := [ascii "PATH=/usr/bin"] }

/-- What `judge_PY3_args` and `judge_CPP_args` share. -/
def judgeLangArgs (cwd : Path) (inFile outFile exePath : Path) (args : List Str)
    (time memory : UInt64) : JudgeArgs :=
  { JudgeArgs.new time (10 * time) 10 (memory * gib) (mb 512) (mb 512) (ascii "null")
      cwd inFile (cwd.append outFile) (cwd.append (ascii "judge_error"))
      (cwd.append (ascii "judge_log")) exePath 0 0 with
    args := args
    env := [ascii "PATH=/usr/bin"] }

/-- `judge_PY3_args`. -/
def judgePY3Args (cwd : Path) (codeName inFile outFile : Str) (time memory : UInt64) : JudgeArgs :=
  judgeLangArgs cwd inFile outFile (ascii "/usr/bin/python3") [cwd.append codeName] time memory

/-- `judge_CPP_args`. -/
def judgeCPPArgs (cwd : Path) (codeName inFile outFile : Str) (time memory : UInt64) : JudgeArgs :=
  judgeLangArgs cwd inFile outFile (Path.stem codeName) [] time memory

/-- `getJudgeArgs`, whose `switch` has no case for an unsupported language. -/
def getJudgeArgs (lang : SuportLang) (hlang : lang ≠ .unsuport) (cwd : Path)
    (codeName inFile outFile : Str) (time memory : UInt64) : JudgeArgs :=
  match lang, hlang with
  | .py3, _ => judgePY3Args cwd codeName inFile outFile time memory
  | .cpp, _ => judgeCPPArgs cwd codeName inFile outFile time memory
  | .unsuport, h => absurd rfl h

/-- Both kinds of judging leave the user's output in the work directory. -/
theorem getJudgeArgs_outputPath (lang : SuportLang) (hlang : lang ≠ .unsuport) (cwd : Path)
    (codeName inFile outFile : Str) (time memory : UInt64) :
    (getJudgeArgs lang hlang cwd codeName inFile outFile time memory).outputPath =
      cwd.append outFile := by
  cases lang with
  | cpp => rfl
  | py3 => rfl
  | unsuport => exact absurd rfl hlang

end Rojcpp.Judge
