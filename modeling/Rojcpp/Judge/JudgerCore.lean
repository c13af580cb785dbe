import Rojcpp.Judge.CommandLine
import Rojcpp.Judge.WorkPool

/-!
# `judger_core`

`main` parses its words, `run` waits for the user's program and classifies how it ended, and
`print_result` writes the seven numbers that `__judger` of the judge server reads.  What the kernel
does is given: whether `fork` and `wait4` succeed, the wait status and the resource usage.
-/

namespace Rojcpp.Judge

open Rojcpp.Lib

/-! ### What the kernel reports -/

/-- The parts of `struct rusage` that `run` reads; the bounds keep its products inside a `long`. -/
structure Rusage where
  utimeSec : ℕ
  utimeUsec : ℕ
  maxrss : ℕ
  sec_lt : utimeSec < 2 ^ 53
  usec_lt : utimeUsec < 1000000
  maxrss_lt : maxrss < 2 ^ 53

/-- The user time in milliseconds. -/
def Rusage.millis (u : Rusage) : ℕ := u.utimeSec * 1000 + u.utimeUsec / 1000

/-- The peak memory in bytes. -/
def Rusage.peak (u : Rusage) : ℕ := u.maxrss * 1024

/-- What comes back from `fork` and `wait4`. -/
inductive Child where
  | forkFailed
  | waitFailed
  | waited (status : UInt32) (usage : Rusage)

/-- How and where `judger_core` is started: built with `LOCAL` or not, the user it runs as, and
what happens to its child. -/
structure JudgerHost where
  isLocal : Bool
  uid : ℕ
  child : Child

/-- `WTERMSIG`. -/
def wTermSig (status : UInt32) : UInt32 := status &&& 0x7f

/-- `WEXITSTATUS`. -/
def wExitStatus (status : UInt32) : UInt32 := (status &&& 0xff00) >>> 8

/-- `WIFEXITED`. -/
def wIfExited (status : UInt32) : Bool := wTermSig status == 0

/-- `WIFSIGNALED`: neither an exit nor a stop. -/
def wIfSignaled (status : UInt32) : Bool := wTermSig status != 0 && wTermSig status != 0x7f

/-- `SIGUSR1`. -/
def sigUsr1 : Int32 := 10

/-- `SIGSEGV`. -/
def sigSegv : Int32 := 11

/-! ### `run` -/

/-- `RESULT` before `run`. -/
def Result.zero : Result := ⟨0, 0, 0, 0, 0, 0, 0⟩

/-- A limit that is set and that the unsigned value exceeds. -/
def exceeds32 (limit : UInt32) (value : Int32) : Bool := limit != 0 && limit < value.toUInt32

/-- A limit that is set and that the unsigned value exceeds. -/
def exceeds64 (limit : UInt64) (value : Int64) : Bool := limit != 0 && limit < value.toUInt64

/-- `run` with the status and the usage of its child. -/
def Result.waited (config : Config) (status : UInt32) (usage : Rusage) (r : Result) : Result :=
  let r := if wIfSignaled status = true then
    { r with signal := (wTermSig status).toInt32 } else r
  if r.signal = sigUsr1 then { r with result := ResultMean.systemError.toInt }
  else
    let r := { r with
      exitCode := (wExitStatus status).toInt32
      cpuTime := Int32.ofNat usage.millis
      memory := Int64.ofNat usage.peak }
    let r := if r.exitCode ≠ 0 then { r with result := ResultMean.runtimeError.toInt } else r
    if r.signal = sigSegv then
      if exceeds64 config.maxMemory r.memory = true then
        { r with result := ResultMean.memoryLimitExceeded.toInt }
      else { r with result := ResultMean.runtimeError.toInt }
    else
      let r := if r.signal ≠ 0 then { r with result := ResultMean.runtimeError.toInt } else r
      let r := if exceeds64 config.maxMemory r.memory = true then
        { r with result := ResultMean.memoryLimitExceeded.toInt } else r
      let r := if exceeds32 config.maxRealTime r.realTime = true then
        { r with result := ResultMean.realTimeLimitExceeded.toInt } else r
      if exceeds32 config.maxCpuTime r.cpuTime = true then
        { r with result := ResultMean.cpuTimeLimitExceeded.toInt }
      else r

/-- `run`. -/
def runJudger (host : JudgerHost) (config : Config) (r : Result) : Result :=
  if host.isLocal = false ∧ host.uid ≠ 0 then
    { r with error := JudgeResultId.rootRequired.toInt }
  else
    match host.child with
    | .forkFailed => { r with error := JudgeResultId.forkFailed.toInt }
    | .waitFailed => { r with error := JudgeResultId.waitFailed.toInt }
    | .waited status usage => r.waited config status usage

/-! ### `print_result` and `main` -/

/-- One line of `print_result`: `debug_out` puts a blank behind the value. -/
def resultLine (value : Str) : Str := value ++ ascii " \n"

/-- `print_result`. -/
def printResult (r : Result) : Str :=
  resultLine (toStringInt r.cpuTime) ++
  resultLine (toStringInt r.realTime) ++
  resultLine (toStringLong r.memory) ++
  resultLine (toStringInt r.signal) ++
  resultLine (toStringInt r.exitCode) ++
  resultLine (toStringInt r.error) ++
  resultLine (toStringInt r.result)

/-- `main`: the report it prints.  It ends without one when an exception leaves `parse`, and after
the texts of `--help` and `--version`. -/
def judgerMain (host : JudgerHost) (argv : List Str) : Option Str :=
  match parse false argv.tail {} with
  | .error _ => none
  | .ok o =>
    if o.help = true ∨ o.showVersion = true then none
    else some (printResult (runJudger host o.config Result.zero))

/-! ### The report is read back -/

/-- Without zero bytes `exec` copies everything. -/
theorem fgetsCopy_eq {s : Str} (hs : 0 ∉ s) : ∀ room, fgetsCopy room false s = s := by
  induction s with
  | nil =>
    intro room
    rw [fgetsCopy]
  | cons c s ih =>
    intro room
    have hc : (false || c == 0) = false := by
      rw [Bool.false_or, beq_eq_false_iff_ne]
      rintro rfl
      exact hs (by simp)
    have hcopy := ih fun h => hs (List.mem_cons_of_mem _ h)
    rw [fgetsCopy]
    simp only [hc, Bool.false_eq_true, if_false]
    split
    · rw [hcopy]
    · rw [hcopy]

/-- What stands behind a number in the report. -/
theorem extract_line (lo hi z old : ℤ) (hlo : lo ≤ z) (hhi : z ≤ hi) (blanks t : Str)
    (hblanks : ∀ c ∈ blanks, isSpace c = true) :
    (⟨blanks ++ (resultLine (decimalInt z) ++ t), false, false⟩ : IStream).extract lo hi old =
      (z, ⟨ascii " \n" ++ t, false, false⟩) := by
  have hplain := extract_decimalInt lo hi z old hlo hhi (ascii " \n" ++ t) (by
    intro c hc
    cases hc
    decide)
  have hskip : (blanks ++ (resultLine (decimalInt z) ++ t)).dropWhile isSpace =
      (decimalInt z ++ (ascii " \n" ++ t)).dropWhile isSpace := by
    rw [resultLine, List.append_assoc, List.dropWhile_append_of_pos hblanks]
  rw [IStream.extract] at hplain ⊢
  simp only [IStream.ofStr] at hplain
  simp only [hskip]
  exact hplain

/-- The text in front of every number but the first. -/
theorem lineEnd_isSpace : ∀ c ∈ ascii " \n", isSpace c = true :=
  List.all_eq_true.mp rfl

theorem extractInt_line (x old : Int32) (blanks t : Str)
    (hblanks : ∀ c ∈ blanks, isSpace c = true) :
    (⟨blanks ++ (resultLine (toStringInt x) ++ t), false, false⟩ : IStream).extractInt old =
      (x, ⟨ascii " \n" ++ t, false, false⟩) := by
  have hlo := x.le_toInt
  have hhi := x.toInt_lt
  rw [IStream.extractInt, toStringInt,
    extract_line _ _ x.toInt old.toInt (by omega) (by omega) blanks t hblanks]
  simp only [Int32.ofInt_toInt]

theorem extractLong_line (x old : Int64) (blanks t : Str)
    (hblanks : ∀ c ∈ blanks, isSpace c = true) :
    (⟨blanks ++ (resultLine (toStringLong x) ++ t), false, false⟩ : IStream).extractLong old =
      (x, ⟨ascii " \n" ++ t, false, false⟩) := by
  have hlo := x.le_toInt
  have hhi := x.toInt_lt
  rw [IStream.extractLong, toStringLong,
    extract_line _ _ x.toInt old.toInt (by omega) (by omega) blanks t hblanks]
  simp only [Int64.ofInt_toInt]

theorem decimalInt_zero (z : ℤ) : 0 ∉ decimalInt z := by
  intro h
  rcases decimalInt_mem h with h | h
  · exact absurd h (by decide)
  · exact absurd h (by decide)

theorem resultLine_zero {z : ℤ} : 0 ∉ resultLine (decimalInt z) := by
  have hend : (0 : UInt8) ∉ ascii " \n" := by decide
  intro h
  rcases List.mem_append.mp h with h | h
  · exact decimalInt_zero z h
  · exact hend h

/-- **`__judger` reads back what `print_result` writes**, whatever was in its variable before. -/
theorem readResult_printResult (r old : Result) :
    readResult (fgetsCopy 127 false (printResult r)) old = r := by
  have hzero : 0 ∉ printResult r := by
    simp only [printResult, toStringInt, toStringLong, List.mem_append, resultLine_zero, or_self,
      not_false_eq_true]
  rw [fgetsCopy_eq hzero]
  have hfirst := fun x old t => extractInt_line x old [] t (by simp)
  have hnext := fun x old t => extractInt_line x old (ascii " \n") t lineEnd_isSpace
  have hlong := fun x old t => extractLong_line x old (ascii " \n") t lineEnd_isSpace
  have hshape : printResult r = [] ++ (resultLine (toStringInt r.cpuTime) ++
      (resultLine (toStringInt r.realTime) ++ (resultLine (toStringLong r.memory) ++
      (resultLine (toStringInt r.signal) ++ (resultLine (toStringInt r.exitCode) ++
      (resultLine (toStringInt r.error) ++ (resultLine (toStringInt r.result) ++ []))))))) := by
    rw [printResult, List.nil_append, List.append_nil]
    simp only [List.append_assoc]
  rw [readResult, hshape, IStream.ofStr, hfirst, hnext, hlong, hnext, hnext, hnext, hnext]

end Rojcpp.Judge
