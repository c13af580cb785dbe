import Mathlib.Tactic.FinCases
import Rojcpp.Judge.JudgerCore
import Rojcpp.Judge.Verdict

/-!
# From the submitted memory limit to the verdict

The limit of a submission is multiplied by `getJudgeArgs`, raised by the constructor of
`judge_args`, printed, split by the shell, parsed by `judger_core`, compared by `run`, and compared
once more by `Judge` with the base memory taken off again.  The theorem composes all of them.

The limit counts megabytes, but `1ull<<30` makes gigabytes of it, so that a run of more than the
submitted limit only fails from 1024 times as much on.
-/

namespace Rojcpp.Judge

open Rojcpp.Lib

/-! ### The words of a point's command -/

/-- An option of the command line: its value is plain, or a path that is quoted. -/
inductive OptionText where
  | plain (name : String) (value : Str)
  | quoted (name : String) (path : Path)

/-- What `judge_args` prints. -/
def OptionText.text : OptionText → Str
  | .plain name value => option name value
  | .quoted name path => option name (quotedPath path)

/-- The word the shell makes of it. -/
def OptionText.word (expand : Str → Str) : OptionText → Str
  | .plain name value => optionWord name value
  | .quoted name path => optionWord name (expand (escapeQuoted path))

/-- Whatever stands outside the quotes is plain. -/
def OptionText.Plain : OptionText → Prop
  | .plain name value => ∀ c ∈ optionWord name value, isPlain c = true
  | .quoted name _ => ∀ c ∈ optionWord name [], isPlain c = true

theorem optionWord_ne_nil (name : String) (value : Str) : optionWord name value ≠ [] := by
  rw [optionWord, List.append_assoc, List.append_assoc]
  exact fun h => absurd h (by simp [ascii])

/-- **The shell finds the options again**, one word for each. -/
theorem words_options {expand : Str → Str} (os : List OptionText) : (∀ o ∈ os, o.Plain) →
    ∀ {ws : List Str}, shellWords expand .between (cStr (os.flatMap OptionText.text)) = some ws →
      ws = os.map (OptionText.word expand) := by
  induction os with
  | nil =>
    intro _ ws h
    cases h
    rfl
  | cons o os ih =>
    intro hplain ws h
    have ho := hplain o (by simp)
    rw [List.flatMap_cons] at h
    cases o with
    | plain name value =>
      rw [OptionText.text, option_append] at h
      obtain ⟨ws', rfl, hws'⟩ := words_plain (optionWord_ne_nil name value) ho h
      rw [ih (fun o ho => hplain o (by simp [ho])) hws']
      rfl
    | quoted name path =>
      have hword : ∀ v, optionWord name v = optionWord name [] ++ v := by
        intro v
        rw [optionWord, optionWord, List.append_nil]
      rw [OptionText.text, option_append, hword] at h
      obtain ⟨ws', rfl, hws'⟩ := words_quoted (optionWord_ne_nil name []) ho h
      rw [ih (fun o ho => hplain o (by simp [ho])) hws', ← hword]
      rfl

/-- The options of `judge_args`, when there are no arguments and the one variable a run gets. -/
def JudgeArgs.optionTexts (a : JudgeArgs) : List OptionText := [
  .plain "max_cpu_time" (toStringULL a.maxCpuTime),
  .plain "max_real_time" (toStringULL a.maxRealTime),
  .plain "max_process_number" (toStringULL a.maxProcessNumber),
  .plain "max_memory" (toStringULL a.maxMemory),
  .plain "max_stack" (toStringULL a.maxStack),
  .plain "max_output_size" (toStringULL a.maxOutputSize),
  .plain "seccomp_rule_name" a.seccompRuleName,
  .quoted "cwd" a.cwd,
  .quoted "input_path" a.inputPath,
  .quoted "output_path" a.outputPath,
  .quoted "error_path" a.errorPath,
  .quoted "log_path" a.logPath,
  .quoted "exe_path" a.exePath,
  .quoted "env" (ascii "PATH=/usr/bin"),
  .plain "gid" (toStringInt a.gid),
  .plain "uid" (toStringInt a.uid)]

theorem toStr_options (a : JudgeArgs) (hargs : a.args = [])
    (henv : a.env = [ascii "PATH=/usr/bin"]) :
    a.toStr = ascii " " ++ a.optionTexts.flatMap OptionText.text := by
  have hquote : inQuotes (ascii "PATH=/usr/bin") = quotedPath (ascii "PATH=/usr/bin") := rfl
  unfold JudgeArgs.toStr JudgeArgs.optionTexts
  rw [hargs, henv]
  simp only [List.flatMap_cons, List.flatMap_nil, OptionText.text, hquote, List.append_assoc,
    List.append_nil]

theorem isPlain_digit {c : UInt8} (h : isDigit c = true) : isPlain c = true := by
  simp only [isDigit, Bool.and_eq_true, decide_eq_true_eq] at h
  have hrange : 44 ≤ c ∧ c ≤ 58 := by
    simp only [UInt8.le_iff_toNat_le] at h ⊢
    have h48 : (48 : UInt8).toNat = 48 := rfl
    have h57 : (57 : UInt8).toNat = 57 := rfl
    have h44 : (44 : UInt8).toNat = 44 := rfl
    have h58 : (58 : UInt8).toNat = 58 := rfl
    omega
  simp [isPlain, hrange]

theorem isPlain_decimal (n : ℕ) : ∀ c ∈ decimal n, isPlain c = true :=
  fun c hc => isPlain_digit (decimal_isDigit n c hc)

theorem isPlain_decimalInt (z : ℤ) : ∀ c ∈ decimalInt z, isPlain c = true := by
  intro c hc
  rcases decimalInt_mem hc with hdigit | rfl
  · exact isPlain_digit hdigit
  · rfl

theorem isPlain_optionWord {name : String} {value : Str}
    (hname : (optionWord name []).all isPlain = true) (hvalue : ∀ c ∈ value, isPlain c = true) :
    ∀ c ∈ optionWord name value, isPlain c = true := by
  intro c hc
  rw [optionWord] at hc
  rw [optionWord, List.append_nil] at hname
  rcases List.mem_append.mp hc with hc | hc
  · exact List.all_eq_true.mp hname c hc
  · exact hvalue c hc

theorem optionTexts_plain (a : JudgeArgs) (hrule : ∀ c ∈ a.seccompRuleName, isPlain c = true) :
    ∀ o ∈ a.optionTexts, o.Plain := by
  have hnone : ∀ c ∈ ([] : Str), isPlain c = true := fun c hc => nomatch hc
  simp only [JudgeArgs.optionTexts, List.forall_mem_cons, OptionText.Plain]
  refine ⟨?_, ?_, ?_, ?_, ?_, ?_, ?_, ?_, ?_, ?_, ?_, ?_, ?_, ?_, ?_, ?_, fun o ho => nomatch ho⟩
  · exact isPlain_optionWord rfl (isPlain_decimal _)
  · exact isPlain_optionWord rfl (isPlain_decimal _)
  · exact isPlain_optionWord rfl (isPlain_decimal _)
  · exact isPlain_optionWord rfl (isPlain_decimal _)
  · exact isPlain_optionWord rfl (isPlain_decimal _)
  · exact isPlain_optionWord rfl (isPlain_decimal _)
  · exact isPlain_optionWord rfl hrule
  · exact isPlain_optionWord rfl hnone
  · exact isPlain_optionWord rfl hnone
  · exact isPlain_optionWord rfl hnone
  · exact isPlain_optionWord rfl hnone
  · exact isPlain_optionWord rfl hnone
  · exact isPlain_optionWord rfl hnone
  · exact isPlain_optionWord rfl hnone
  · exact isPlain_optionWord rfl (isPlain_decimalInt _)
  · exact isPlain_optionWord rfl (isPlain_decimalInt _)

/-- **The words of a point's command.** -/
theorem words_command {expand : Str → Str} {a : JudgeArgs} (hargs : a.args = [])
    (henv : a.env = [ascii "PATH=/usr/bin"]) (hrule : ∀ c ∈ a.seccompRuleName, isPlain c = true)
    {ws : List Str} (h : shellWords expand .between (cStr (judgerBin ++ a.toStr)) = some ws) :
    ws = judgerBin :: a.optionTexts.map (OptionText.word expand) := by
  have hbin : ∀ c ∈ judgerBin, isPlain c = true := List.all_eq_true.mp rfl
  rw [toStr_options a hargs henv] at h
  obtain ⟨ws', rfl, hws'⟩ := words_plain (by decide) hbin h
  rw [words_options a.optionTexts (optionTexts_plain a hrule) hws']

/-! ### The limits in the configuration -/

/-- What decides about the memory verdict: the two limits, and that no other text is printed. -/
def Options.limits (o : Options) : UInt32 × UInt64 × Bool × Bool :=
  (o.config.maxCpuTime, o.config.maxMemory, o.help, o.showVersion)

/-- Writing the variable keeps the limits. -/
def Value.KeepsLimits : Value → Prop
  | .uint32 _ set => ∀ v o, (set v o).limits = o.limits
  | .uint64 _ set => ∀ v o, (set v o).limits = o.limits
  | .bool set => ∀ v o, (set v o).limits = o.limits
  | .string set => ∀ v o, (set v o).limits = o.limits
  | .strings _ set => ∀ v o, (set v o).limits = o.limits

theorem store_limits {a : Value} (ha : a.KeepsLimits) {flag value : Str} {o o' : Options}
    (h : a.store flag value o = .ok o') : o'.limits = o.limits := by
  cases a with
  | bool set =>
    cases h
    exact ha _ _
  | uint32 get set =>
    rw [Value.store] at h
    split at h
    · cases h
    · cases h
      exact ha _ _
  | uint64 get set =>
    rw [Value.store] at h
    split at h
    · cases h
    · cases h
      exact ha _ _
  | string set =>
    rw [Value.store] at h
    split at h
    · cases h
    · cases h
      exact ha _ _
  | strings get set =>
    rw [Value.store] at h
    split at h
    · cases h
    · cases h
      exact ha _ _

/-- The options of a command that do not touch the limits. -/
def otherNames : List String :=
  ["max_real_time", "max_process_number", "max_stack", "max_output_size", "seccomp_rule_name",
    "cwd", "input_path", "output_path", "error_path", "log_path", "exe_path", "env", "gid", "uid"]

/-- Each of them is known and keeps the limits. -/
theorem otherNames_keep : ∀ name ∈ otherNames, noEqual name = true ∧
    ∃ a, findArgument (ascii "--" ++ ascii name) = some a ∧ a.value.KeepsLimits := by
  intro name hname
  fin_cases hname <;> exact ⟨rfl, _, rfl, fun _ _ => rfl⟩

/-- Words that do not touch the limits leave them alone. -/
theorem parse_others (others : List (String × Str)) : (∀ p ∈ others, p.1 ∈ otherNames) →
    ∀ {rest : List Str} {o o' : Options},
      parse false (others.map (fun p => optionWord p.1 p.2) ++ rest) o = .ok o' →
        ∃ o₁ : Options, o₁.limits = o.limits ∧ parse false rest o₁ = .ok o' := by
  induction others with
  | nil => exact fun _ _ o _ h => ⟨o, rfl, h⟩
  | cons p others ih =>
    intro hothers rest o o' h
    obtain ⟨hname, a, ha, hkeep⟩ := otherNames_keep p.1 (hothers p (by simp))
    rw [List.map_cons, List.cons_append, parse_option hname ha] at h
    obtain ⟨o₁, hstore, h⟩ := bind_ok_iff.mp h
    obtain ⟨o₂, hlimits, h⟩ := ih (fun q hq => hothers q (by simp [hq])) h
    exact ⟨o₂, hlimits.trans (store_limits hkeep hstore), h⟩

/-- The number a 32-bit variable holds after a `std::size_t` was printed and read. -/
def clamp32 (n : UInt64) : UInt32 :=
  UInt32.ofNat (if n.toNat < 2 ^ 32 then n.toNat else 2 ^ 32 - 1)

/-- The word of the time limit. -/
theorem parse_maxCpuTime (n : UInt64) (rest : List Str) (o : Options) :
    parse false (optionWord "max_cpu_time" (toStringULL n) :: rest) o =
      parse false rest { o with config.maxCpuTime := clamp32 n } := by
  have hfind : findArgument (ascii "--" ++ ascii "max_cpu_time") =
      some ⟨flagNames "-t" "--max_cpu_time", .uint32 (fun o => o.config.maxCpuTime)
        fun v o => { o with config.maxCpuTime := v }⟩ := rfl
  rw [parse_option rfl hfind, toStringULL, Value.store, if_neg (decimal_ne_nil _),
    extractUnsigned_decimal]
  rfl

/-- The word of the memory limit. -/
theorem parse_maxMemory (n : UInt64) (rest : List Str) (o : Options) :
    parse false (optionWord "max_memory" (toStringULL n) :: rest) o =
      parse false rest { o with config.maxMemory := n } := by
  have hfind : findArgument (ascii "--" ++ ascii "max_memory") =
      some ⟨flagNames "-m" "--max_memory", .uint64 (fun o => o.config.maxMemory)
        fun v o => { o with config.maxMemory := v }⟩ := rfl
  rw [parse_option rfl hfind, toStringULL, Value.store, if_neg (decimal_ne_nil _),
    extractUnsigned_decimal, if_pos n.toNat_lt, UInt64.ofNat_toNat]
  rfl

/-- **The limits `judger_core` works with** are those of the arguments, the time limit cut to 32
bits. -/
theorem parse_limits {expand : Str → Str} {a : JudgeArgs} {o : Options}
    (h : parse false (a.optionTexts.map (OptionText.word expand)) {} = .ok o) :
    o.limits = (clamp32 a.maxCpuTime, a.maxMemory, false, false) := by
  have hshape : a.optionTexts.map (OptionText.word expand) =
      optionWord "max_cpu_time" (toStringULL a.maxCpuTime) ::
        ([("max_real_time", toStringULL a.maxRealTime),
          ("max_process_number", toStringULL a.maxProcessNumber)].map
            (fun p => optionWord p.1 p.2) ++
        (optionWord "max_memory" (toStringULL a.maxMemory) ::
        ([("max_stack", toStringULL a.maxStack), ("max_output_size", toStringULL a.maxOutputSize),
          ("seccomp_rule_name", a.seccompRuleName), ("cwd", expand (escapeQuoted a.cwd)),
          ("input_path", expand (escapeQuoted a.inputPath)),
          ("output_path", expand (escapeQuoted a.outputPath)),
          ("error_path", expand (escapeQuoted a.errorPath)),
          ("log_path", expand (escapeQuoted a.logPath)),
          ("exe_path", expand (escapeQuoted a.exePath)),
          ("env", expand (escapeQuoted (ascii "PATH=/usr/bin"))),
          ("gid", toStringInt a.gid), ("uid", toStringInt a.uid)].map
            (fun p => optionWord p.1 p.2) ++ []))) := rfl
  rw [hshape, parse_maxCpuTime] at h
  obtain ⟨o₁, hlimits₁, h⟩ := parse_others _ (by simp [otherNames]) h
  rw [parse_maxMemory] at h
  obtain ⟨o₂, hlimits₂, h⟩ := parse_others _ (by simp [otherNames]) h
  cases h
  rw [hlimits₂]
  show (o₁.config.maxCpuTime, a.maxMemory, o₁.help, o₁.showVersion) = _
  simp only [Options.limits, Prod.mk.injEq] at hlimits₁
  rw [hlimits₁.1, hlimits₁.2.2.1, hlimits₁.2.2.2]

/-! ### From the usage to the verdict -/

/-- The real time is never set, and 0 exceeds no limit. -/
theorem exceeds32_zero (limit : UInt32) : exceeds32 limit 0 = false := by
  rw [exceeds32, Bool.and_eq_false_iff]
  right
  exact decide_eq_false UInt32.not_lt_zero

section
variable {config : Config} {status : UInt32} {usage : Rusage}

/-- `run` of a program that exits normally and within its cpu time. -/
theorem waited_exited (hexit : wIfExited status = true)
    (hcpu : exceeds32 config.maxCpuTime (Int32.ofNat usage.millis) = false) :
    Result.zero.waited config status usage =
      ⟨Int32.ofNat usage.millis, 0, Int64.ofNat usage.peak, 0, (wExitStatus status).toInt32, 0,
        if exceeds64 config.maxMemory (Int64.ofNat usage.peak) = true then 3
        else if (wExitStatus status).toInt32 ≠ 0 then 4 else 0⟩ := by
  have hterm : wTermSig status = 0 := beq_iff_eq.mp hexit
  have hsignaled : ¬ wIfSignaled status = true := by
    rw [wIfSignaled, hterm]
    decide
  have husr : ¬ (0 : Int32) = sigUsr1 := by decide
  have hsegv : ¬ (0 : Int32) = sigSegv := by decide
  have hre : ResultMean.runtimeError.toInt = 4 := rfl
  have hmle : ResultMean.memoryLimitExceeded.toInt = 3 := rfl
  rw [Result.waited, Result.zero]
  simp only [if_neg hsignaled, if_neg husr, hre, hmle]
  by_cases hcode : (wExitStatus status).toInt32 ≠ 0
  · by_cases hmem : exceeds64 config.maxMemory (Int64.ofNat usage.peak) = true
    · simp [hcode, hmem, hsegv, exceeds32_zero, hcpu]
    · simp [hcode, hmem, hsegv, exceeds32_zero, hcpu]
  · by_cases hmem : exceeds64 config.maxMemory (Int64.ofNat usage.peak) = true
    · simp [hcode, hmem, hsegv, exceeds32_zero, hcpu]
    · simp [hcode, hmem, hsegv, exceeds32_zero, hcpu]

theorem peak_toNat : (Int64.ofNat usage.peak).toUInt64.toNat = usage.peak := by
  have hlt := usage.maxrss_lt
  have hsize : UInt64.size = 2 ^ 64 := rfl
  rw [Int64.toUInt64_ofNat', UInt64.toNat_ofNat_of_lt']
  rw [Rusage.peak]
  omega

theorem exceeds64_peak (limit : UInt64) :
    exceeds64 limit (Int64.ofNat usage.peak) = true ↔ limit ≠ 0 ∧ limit.toNat < usage.peak := by
  rw [exceeds64, Bool.and_eq_true, bne_iff_ne, decide_eq_true_eq, UInt64.lt_iff_toNat_lt,
    peak_toNat]

end

/-- The limits of a point's arguments, for a limit that is submitted. -/
theorem maxMemory_toNat {m : Int32} (hm : 1 ≤ m.toInt) (cwd : Path)
    (codeName inFile outFile : Str) (time : UInt64) :
    let args := judgeCPPArgs cwd codeName inFile outFile time (toSize m)
    args.maxMemory.toNat = m.toInt.toNat * 2 ^ 30 + 2 ^ 24 ∧
      (args.maxMemory - memoryBase).toNat = m.toInt.toNat * 2 ^ 30 := by
  have hlt := m.toInt_lt
  have hsize : (toSize m).toNat = m.toInt.toNat := by
    have hle : 0 ≤ m.toInt64 := by
      rw [Int64.le_iff_toInt_le, Int32.toInt_toInt64]
      exact (by decide : (0 : Int64).toInt ≤ 1).trans hm
    rw [toSize, Int64.toNat_toUInt64_of_le hle, Int64.toNatClampNeg, Int32.toInt_toInt64]
  have hgib : (toSize m * gib).toNat = m.toInt.toNat * 2 ^ 30 := by
    have hvalue : gib.toNat = 2 ^ 30 := by decide
    rw [UInt64.toNat_mul, hsize, hvalue, Nat.mod_eq_of_lt]
    omega
  have hne : ¬ toSize m * gib = unlimit := by
    intro h
    rw [h] at hgib
    have hzero : unlimit.toNat = 0 := rfl
    omega
  have hmax : (judgeCPPArgs cwd codeName inFile outFile time (toSize m)).maxMemory =
      toSize m * gib + memoryBase := if_neg hne
  have hbase : memoryBase.toNat = 2 ^ 24 := by decide
  simp only [hmax]
  constructor
  · rw [UInt64.toNat_add, hgib, hbase, Nat.mod_eq_of_lt]
    omega
  · rw [UInt64.add_sub_cancel, hgib]

/-- The bytes from which on a point fails: what the submission allows is multiplied once more by
1024, and a program that exits with an error is only measured by `run`. -/
def enforcedLimit (m : ℕ) (status : UInt32) : ℕ :=
  if (wExitStatus status).toInt32 = 0 then m * 2 ^ 30 else m * 2 ^ 30 + 2 ^ 24 + 1

/-- **The verdict of a run that exits normally and within its time.** -/
theorem verdict_memory (status : UInt32) (usage : Rusage) {args : JudgeArgs} {m : ℕ}
    (hmax : args.maxMemory.toNat = m * 2 ^ 30 + 2 ^ 24)
    (hsub : (args.maxMemory - memoryBase).toNat = m * 2 ^ 30) (r : Result)
    (herror : r.error = 0) (hmemory : r.memory = Int64.ofNat usage.peak)
    (hresult : r.result = if exceeds64 args.maxMemory (Int64.ofNat usage.peak) = true then 3
      else if (wExitStatus status).toInt32 ≠ 0 then 4 else 0) (outFile : Path)
    (fs : FileSystem) :
    (verdict args outFile fs r).result = ResultMean.memoryLimitExceeded.toInt ↔
      enforcedLimit m status ≤ usage.peak := by
  have hne : args.maxMemory ≠ 0 := by
    intro h
    rw [h] at hmax
    have hzero : (0 : UInt64).toNat = 0 := rfl
    omega
  have hexceeds : exceeds64 args.maxMemory (Int64.ofNat usage.peak) = true ↔
      m * 2 ^ 30 + 2 ^ 24 < usage.peak := by
    rw [exceeds64_peak, hmax, and_iff_right hne]
  have hover : overMemory args r = true ↔ m * 2 ^ 30 ≤ usage.peak := by
    rw [overMemory, Bool.and_eq_true, bne_iff_ne, decide_eq_true_eq, hmemory,
      UInt64.le_iff_toNat_le, peak_toNat, hsub]
    exact and_iff_right hne
  have hmle : ResultMean.memoryLimitExceeded.toInt = 3 := rfl
  have hwrong : ¬ ResultMean.wrongAnswer.toInt = 3 := by decide
  rw [hmle, verdict, enforcedLimit]
  by_cases hmem : exceeds64 args.maxMemory (Int64.ofNat usage.peak) = true
  · rw [if_pos hmem] at hresult
    rw [if_pos (.inr (by rw [hresult]; decide)), hresult]
    refine iff_of_true rfl ?_
    have hbig := hexceeds.mp hmem
    split <;> omega
  · rw [if_neg hmem] at hresult
    have hsmall : ¬ m * 2 ^ 30 + 2 ^ 24 < usage.peak := fun h => hmem (hexceeds.mpr h)
    by_cases hcode : (wExitStatus status).toInt32 = 0
    · rw [if_neg (not_not_intro hcode)] at hresult
      rw [if_neg (by rw [herror, hresult]; decide), if_pos hcode]
      by_cases hlarge : overMemory args r = true
      · rw [if_pos hlarge]
        exact iff_of_true rfl (hover.mp hlarge)
      · rw [if_neg hlarge]
        refine iff_of_false ?_ fun h => hlarge (hover.mpr h)
        split
        · rw [hresult]
          decide
        · exact hwrong
    · rw [if_pos hcode] at hresult
      rw [if_pos (.inr (by rw [hresult]; decide)), if_neg hcode, hresult]
      refine iff_of_false (by decide) ?_
      omega

/-- The run stays within the submitted time limit, if there is one. -/
def WithinTime (timeLimit : Int32) (usage : Rusage) : Prop :=
  0 < timeLimit.toInt → (usage.millis : ℤ) ≤ timeLimit.toInt

/-- A run within its time does not exceed the limit `judger_core` gets. -/
theorem within_clamp32 {timeLimit : Int32} {usage : Rusage} (h : WithinTime timeLimit usage) :
    exceeds32 (clamp32 (toSize timeLimit)) (Int32.ofNat usage.millis) = false := by
  have hlt := (Int32.ofNat usage.millis).toUInt32.toNat_lt
  rw [exceeds32, Bool.and_eq_false_iff, bne_eq_false_iff_eq, decide_eq_false_iff_not,
    UInt32.lt_iff_toNat_lt]
  by_cases hfit : (toSize timeLimit).toNat < 2 ^ 32
  · have hsize : timeLimit.toInt = (toSize timeLimit).toNat := by
      rw [← Int32.toInt_toInt64]
      exact BitVec.toInt_eq_toNat_of_lt (by
        rw [Int64.toNat_toBitVec]
        have hdef : timeLimit.toInt64.toUInt64.toNat < 2 ^ 32 := hfit
        omega)
    rw [clamp32, if_pos hfit, UInt32.toNat_ofNat_of_lt' hfit]
    by_cases hzero : (toSize timeLimit).toNat = 0
    · left
      rw [hzero]
      rfl
    · right
      have hwithin := h (by omega)
      have hmillis : (Int32.ofNat usage.millis).toUInt32.toNat = usage.millis := by
        rw [Int32.toUInt32_ofNat', UInt32.toNat_ofNat_of_lt']
        have hbound : UInt32.size = 2 ^ 32 := rfl
        omega
      omega
  · right
    have hmax : (UInt32.ofNat (2 ^ 32 - 1)).toNat = 2 ^ 32 - 1 := rfl
    rw [clamp32, if_neg hfit, hmax]
    omega

/-! ### The verdict of a point -/

/-- The shell and `judger_core` have carried out a command: the program may be started, it ended
with this status and this usage, and what the command prints is the report. -/
structure PointRun (host : Host) (core : JudgerHost) (expand : Str → Str) (k : ℕ) (args : JudgeArgs)
    (fs fs' : FileSystem) (status : UInt32) (usage : Rusage) : Prop where
  allowed : core.isLocal = true ∨ core.uid = 0
  child : core.child = .waited status usage
  printed : ∃ words out, shellWords expand .between (cStr (judgerBin ++ args.toStr)) = some words ∧
    judgerMain core words = some out ∧
    host.popen k (cStr (judgerBin ++ args.toStr)) fs = some (out, fs')

/-- What `__judger` gets to know about such a run. -/
theorem judger_pointRun {host : Host} {core : JudgerHost} {expand : Str → Str} {k : ℕ}
    {args : JudgeArgs} {fs fs' : FileSystem} {status : UInt32} {usage : Rusage}
    (hrun : PointRun host core expand k args fs fs' status usage) (hargs : args.args = [])
    (henv : args.env = [ascii "PATH=/usr/bin"])
    (hrule : ∀ c ∈ args.seccompRuleName, isPlain c = true) :
    ∃ config : Config, config.maxCpuTime = clamp32 args.maxCpuTime ∧
      config.maxMemory = args.maxMemory ∧
      judger host k args fs = .ok (Result.zero.waited config status usage, fs') := by
  obtain ⟨words, out, hwords, hmain, hpopen⟩ := hrun.printed
  rw [words_command hargs henv hrule hwords, judgerMain, List.tail_cons] at hmain
  cases hparse : parse false (args.optionTexts.map (OptionText.word expand)) {} with
  | error e =>
    rw [hparse] at hmain
    cases hmain
  | ok o =>
    have hlimits := parse_limits hparse
    simp only [Options.limits, Prod.mk.injEq] at hlimits
    obtain ⟨hcpu, hmax, hhelp, hversion⟩ := hlimits
    have hroot : ¬ (core.isLocal = false ∧ core.uid ≠ 0) := by
      rcases hrun.allowed with h | h
      · simp [h]
      · simp [h]
    rw [hparse] at hmain
    simp only at hmain
    rw [if_neg (by simp [hhelp, hversion]), runJudger, if_neg hroot, hrun.child] at hmain
    have hout := Option.some.inj hmain
    refine ⟨o.config, hcpu, hmax, ?_⟩
    rw [judger, exec, hpopen, ← hout]
    simp only [bind, Except.bind, readResult_printResult]
    rfl

/-- Every language that is judged is judged as C++. -/
theorem pointArgs_cpp {jn : JudgeQueueNode} {w : Workspace}
    (hlang : w.lang.1 = stringToLang jn.language) (i : ℕ) (inFile : Path) :
    pointArgs jn w i inFile = judgeCPPArgs w.workPath codeName inFile (userOutFile i)
      (toSize jn.timeLimit) (toSize jn.memoryLimit) := by
  obtain ⟨⟨lang, hne⟩, problem, workPath, files⟩ := w
  have hcpp : lang = .cpp := by
    simp only at hlang
    rw [stringToLang] at hlang
    split at hlang
    · exact hlang
    · split at hlang
      · exact hlang
      · exact absurd hlang hne
  subst hcpp
  rfl

section
variable (host : Host) (core : JudgerHost) (expand : Str → Str) (jn : JudgeQueueNode)
  (w : Workspace) (i : ℕ) (inFile : Path) (fs fs' : FileSystem) (status : UInt32) (usage : Rusage)

/-- **What the code enforces**: a run that exits normally within its time is over its memory limit
from `enforcedLimit` on. -/
theorem judge_memory (hlang : w.lang.1 = stringToLang jn.language)
    (hlimit : 1 ≤ jn.memoryLimit.toInt) (hexit : wIfExited status = true)
    (htime : WithinTime jn.timeLimit usage)
    (hrun : PointRun host core expand (i + 1) (pointArgs jn w i inFile) fs fs' status usage) :
    ∃ r, judge host (i + 1) (pointArgs jn w i inFile) (userOutFile i) fs = .ok (r, fs') ∧
      (r.result = ResultMean.memoryLimitExceeded.toInt ↔
        enforcedLimit jn.memoryLimit.toInt.toNat status ≤ usage.peak) := by
  obtain ⟨hmax, hsub⟩ := maxMemory_toNat hlimit w.workPath codeName inFile (userOutFile i)
    (toSize jn.timeLimit)
  have hrule : ∀ c ∈ ascii "null", isPlain c = true := List.all_eq_true.mp rfl
  rw [pointArgs_cpp hlang i inFile] at hrun ⊢
  obtain ⟨config, hcpu, hmemory, hjudger⟩ := judger_pointRun hrun rfl rfl hrule
  have hwithin : exceeds32 config.maxCpuTime (Int32.ofNat usage.millis) = false := by
    rw [hcpu]
    exact within_clamp32 htime
  rw [waited_exited hexit hwithin, hmemory] at hjudger
  rw [judge, hjudger]
  exact ⟨_, rfl, verdict_memory status usage hmax hsub _ rfl rfl rfl (userOutFile i) fs'⟩

/-- **When the submitted memory limit decides the verdict**: for a run that exits normally within
its time, `MEMORY_LIMIT_EXCEEDED` says whether it used the submitted megabytes exactly when it has
used less than those, or as much as the code enforces. -/
theorem memory_limit_iff (hlang : w.lang.1 = stringToLang jn.language)
    (hlimit : 1 ≤ jn.memoryLimit.toInt) (hexit : wIfExited status = true)
    (htime : WithinTime jn.timeLimit usage)
    (hrun : PointRun host core expand (i + 1) (pointArgs jn w i inFile) fs fs' status usage) :
    ∃ r, judge host (i + 1) (pointArgs jn w i inFile) (userOutFile i) fs = .ok (r, fs') ∧
      ((r.result = ResultMean.memoryLimitExceeded.toInt ↔
          jn.memoryLimit.toInt.toNat * 2 ^ 20 ≤ usage.peak) ↔
        usage.peak < jn.memoryLimit.toInt.toNat * 2 ^ 20 ∨
          enforcedLimit jn.memoryLimit.toInt.toNat status ≤ usage.peak) := by
  obtain ⟨r, hjudge, henforced⟩ := judge_memory host core expand jn w i inFile fs fs' status usage
    hlang hlimit hexit htime hrun
  have hle : jn.memoryLimit.toInt.toNat * 2 ^ 20 ≤
      enforcedLimit jn.memoryLimit.toInt.toNat status := by
    rw [enforcedLimit]
    split <;> omega
  refine ⟨r, hjudge, ?_⟩
  rw [henforced]
  constructor
  · intro h
    by_cases hsmall : usage.peak < jn.memoryLimit.toInt.toNat * 2 ^ 20
    · exact .inl hsmall
    · exact .inr (h.mpr (Nat.le_of_not_lt hsmall))
  · rintro (hsmall | hlarge)
    · exact iff_of_false (fun h => by omega) (Nat.not_le_of_lt hsmall)
    · exact iff_of_true hlarge (hle.trans hlarge)

end

/-! ### A run the limit does not stop -/

/-- A submission that may use one megabyte. -/
def smallNode : JudgeQueueNode :=
  enque ⟨ascii "7", ascii "int main(){}", ascii "cpp", ascii "1", 1000, 1⟩ 5

/-- Its arguments for the first test of the example. -/
def smallArgs : JudgeArgs := pointArgs smallNode exampleWorkspace 0 (exampleData "a0.in")

/-- One megabyte, used by a run of five milliseconds. -/
def megabyteUsage : Rusage := ⟨0, 5000, 1024, by decide, by decide, by decide⟩

/-- A judger built for local use, whose child exits with the code 0. -/
def localCore : JudgerHost := ⟨true, 1000, .waited 0 megabyteUsage⟩

/-- A host whose commands are carried out by the shell and the judger. -/
def judgerHost : Host where
  files := exampleFiles
  uuid := 0
  createDirectories _ fs := .ok fs
  popen _ cmd fs :=
    ((shellWords id .between cmd).bind (judgerMain localCore)).map fun out => (out, fs)
  residue _ := Result.zero

/-- What `judger_core` reports about the run. -/
theorem smallArgs_report :
    (shellWords id .between (cStr (judgerBin ++ smallArgs.toStr))).bind (judgerMain localCore) =
      some (ascii "5 \n0 \n1048576 \n0 \n0 \n0 \n0 \n") := by
  decide +kernel

theorem smallRun : PointRun judgerHost localCore id 1 smallArgs exampleFiles exampleFiles 0
    megabyteUsage where
  allowed := .inl rfl
  child := rfl
  printed := by
    obtain ⟨words, hwords, hmain⟩ := Option.bind_eq_some_iff.mp smallArgs_report
    refine ⟨words, _, hwords, hmain, ?_⟩
    simp only [judgerHost, smallArgs_report, Option.map_some]

theorem memory_limit_small :
    ∃ r, judge judgerHost 1 smallArgs (userOutFile 0) exampleFiles = .ok (r, exampleFiles) ∧
      ¬(r.result = ResultMean.memoryLimitExceeded.toInt ↔ 1 * 2 ^ 20 ≤ megabyteUsage.peak) ∧
      ¬(megabyteUsage.peak < 1 * 2 ^ 20 ∨ enforcedLimit 1 0 ≤ megabyteUsage.peak) := by
  obtain ⟨r, hjudge, hiff⟩ := memory_limit_iff judgerHost localCore id smallNode exampleWorkspace 0
    (exampleData "a0.in") exampleFiles exampleFiles 0 megabyteUsage (by decide) (by decide)
    (by decide) (fun _ => by decide) smallRun
  have hlarge : ¬(megabyteUsage.peak < 1 * 2 ^ 20 ∨ enforcedLimit 1 0 ≤ megabyteUsage.peak) := by
    decide
  exact ⟨r, hjudge, fun h => hlarge (hiff.mp h), hlarge⟩

/-- **A run that uses the one megabyte of its submission is not over its limit.** -/
theorem megabyte_accepted : ¬ ∀ (host : Host) (core : JudgerHost) (expand : Str → Str)
    (jn : JudgeQueueNode) (w : Workspace) (i : ℕ) (inFile : Path) (fs fs' : FileSystem)
    (status : UInt32) (usage : Rusage), w.lang.1 = stringToLang jn.language →
    1 ≤ jn.memoryLimit.toInt → wIfExited status = true → WithinTime jn.timeLimit usage →
    PointRun host core expand (i + 1) (pointArgs jn w i inFile) fs fs' status usage →
    ∃ r, judge host (i + 1) (pointArgs jn w i inFile) (userOutFile i) fs = .ok (r, fs') ∧
      (r.result = ResultMean.memoryLimitExceeded.toInt ↔
        jn.memoryLimit.toInt.toNat * 2 ^ 20 ≤ usage.peak) := by
  intro hall
  obtain ⟨r, hjudge, hclaim⟩ := hall judgerHost localCore id smallNode exampleWorkspace 0
    (exampleData "a0.in") exampleFiles exampleFiles 0 megabyteUsage (by decide) (by decide)
    (by decide) (fun _ => by decide) smallRun
  obtain ⟨r', hjudge', hcode⟩ := judge_memory judgerHost localCore id smallNode exampleWorkspace 0
    (exampleData "a0.in") exampleFiles exampleFiles 0 megabyteUsage (by decide) (by decide)
    (by decide) (fun _ => by decide) smallRun
  rw [hjudge] at hjudge'
  have hr : r = r' := (Prod.mk.inj (Except.ok.inj hjudge')).1
  have hover : r.result = ResultMean.memoryLimitExceeded.toInt := hclaim.mpr (by decide)
  have henforced : ¬ enforcedLimit smallNode.memoryLimit.toInt.toNat 0 ≤ megabyteUsage.peak := by
    decide
  rw [hr] at hover
  exact henforced (hcode.mp hover)

end Rojcpp.Judge
