import Rojcpp.Judge.Shell

/-!
# The command line of `judger_core`

`CommandLine::parse` over the options that `main` registers.  Each option points to one variable:
the members of `CONFIG`, and `help` and `show_version`.  A value goes through a string stream,
except for texts and booleans; what the stream cannot read is not reported.
-/

namespace Rojcpp.Judge

open Rojcpp.Lib

/-! ### The variables -/

/-- `config`, with the values `CONFIG` starts with; `UNLIMITED` is 0. -/
structure Config where
  maxCpuTime : UInt32 := 0
  maxRealTime : UInt32 := 0
  maxProcessNumber : UInt32 := 0
  memoryLimitCheckOnly : Bool := false
  maxOutputSize : UInt64 := 0
  maxMemory : UInt64 := 0
  maxStack : UInt64 := 0
  cwd : Str := []
  exePath : Str := ascii "1"
  inputPath : Str := ascii "/dev/stdin"
  outputPath : Str := ascii "/dev/stdout"
  errorPath : Str := ascii "/dev/stderr"
  args : List Str := []
  env : List Str := []
  logPath : Str := ascii "judger_log.txt"
  seccompRuleName : Str := []
  uid : UInt32 := 65534
  gid : UInt32 := 65534
  deriving DecidableEq, Repr

/-- The variables of `main` the options point to. -/
structure Options where
  help : Bool := false
  showVersion : Bool := false
  config : Config := {}
  deriving DecidableEq, Repr

/-- `CommandLine::Value`, without the types no option of `main` has: how the variable is read and
written. -/
inductive Value where
  | uint32 (get : Options → UInt32) (set : UInt32 → Options → Options)
  | uint64 (get : Options → UInt64) (set : UInt64 → Options → Options)
  | bool (set : Bool → Options → Options)
  | string (set : Str → Options → Options)
  | strings (get : Options → List Str) (set : List Str → Options → Options)

/-- `CommandLine::Argument`, without its help text. -/
structure Argument where
  flags : List Str
  value : Value

/-- The flags of an option with a short and a long name. -/
def flagNames (short long : String) : List Str := [ascii short, ascii long]

/-- The calls of `addArgument` in `main`. -/
def arguments : List Argument := [
  ⟨flagNames "-h" "--help", .bool fun v o => { o with help := v }⟩,
  ⟨flagNames "-v" "--version", .bool fun v o => { o with showVersion := v }⟩,
  ⟨flagNames "-t" "--max_cpu_time", .uint32 (fun o => o.config.maxCpuTime)
    fun v o => { o with config.maxCpuTime := v }⟩,
  ⟨flagNames "-r" "--max_real_time", .uint32 (fun o => o.config.maxRealTime)
    fun v o => { o with config.maxRealTime := v }⟩,
  ⟨flagNames "-m" "--max_memory", .uint64 (fun o => o.config.maxMemory)
    fun v o => { o with config.maxMemory := v }⟩,
  ⟨flagNames "-only" "--memory_limit_check_only",
    .bool fun v o => { o with config.memoryLimitCheckOnly := v }⟩,
  ⟨flagNames "-s" "--max_stack", .uint64 (fun o => o.config.maxStack)
    fun v o => { o with config.maxStack := v }⟩,
  ⟨flagNames "-p" "--max_process_number", .uint32 (fun o => o.config.maxProcessNumber)
    fun v o => { o with config.maxProcessNumber := v }⟩,
  ⟨flagNames "-os" "--max_output_size", .uint64 (fun o => o.config.maxOutputSize)
    fun v o => { o with config.maxOutputSize := v }⟩,
  ⟨[ascii "--cwd"], .string fun v o => { o with config.cwd := v }⟩,
  ⟨flagNames "-e" "--exe_path", .string fun v o => { o with config.exePath := v }⟩,
  ⟨flagNames "-i" "--input_path", .string fun v o => { o with config.inputPath := v }⟩,
  ⟨flagNames "-o" "--output_path", .string fun v o => { o with config.outputPath := v }⟩,
  ⟨flagNames "-ep" "--error_path", .string fun v o => { o with config.errorPath := v }⟩,
  ⟨[ascii "--args"], .strings (fun o => o.config.args) fun v o => { o with config.args := v }⟩,
  ⟨[ascii "--env"], .strings (fun o => o.config.env) fun v o => { o with config.env := v }⟩,
  ⟨[ascii "--log_path"], .string fun v o => { o with config.logPath := v }⟩,
  ⟨flagNames "-rule" "--seccomp_rule_name",
    .string fun v o => { o with config.seccompRuleName := v }⟩,
  ⟨flagNames "-u" "--uid", .uint32 (fun o => o.config.uid) fun v o => { o with config.uid := v }⟩,
  ⟨flagNames "-g" "--gid", .uint32 (fun o => o.config.gid) fun v o => { o with config.gid := v }⟩]

/-- `sstr >> *arg` for an unsigned type of `w` bits that holds `old`.  A minus sign wraps around, a
number that does not fit gives the largest value, no number gives 0, and a text of blanks leaves
the variable alone. -/
def extractUnsigned (w : ℕ) (value : Str) (old : ℕ) : ℕ :=
  match value.dropWhile isSpace with
  | [] => old
  | c :: t =>
    match (scanInt (c :: t)).1 with
    | none => 0
    | some v => if v.natAbs < 2 ^ w then (v % 2 ^ w).toNat else 2 ^ w - 1

/-- What a value does to its variable. -/
def Value.store (flag value : Str) (o : Options) : Value → Except Str Options
  | .bool set => .ok (set (value != ascii "false") o)
  | .string set =>
    if value = [] then .error (missingValue flag) else .ok (set value o)
  | .strings get set =>
    if value = [] then .error (missingValue flag) else .ok (set (get o ++ [value]) o)
  | .uint32 get set =>
    if value = [] then .error (missingValue flag)
    else .ok (set (UInt32.ofNat (extractUnsigned 32 value (get o).toNat)) o)
  | .uint64 get set =>
    if value = [] then .error (missingValue flag)
    else .ok (set (UInt64.ofNat (extractUnsigned 64 value (get o).toNat)) o)
where
  /-- The text of the `std::runtime_error`. -/
  missingValue (flag : Str) : Str :=
    ascii "Failed to parse command line arguments: Missing value for argument \"" ++ flag ++
      ascii "\"!"

/-- Whether a value in the next word is taken from there: a boolean leaves a word that is neither
`true` nor `false`. -/
def Value.takes (value : Str) : Value → Bool
  | .bool _ => value == [] || value == ascii "true" || value == ascii "false"
  | _ => true

/-- The byte `=`. -/
abbrev equalSign : UInt8 := '='

/-- The flag of a word, its value, and whether the value is the next word. -/
def splitWord (arg : Str) (next : Option Str) : Str × Str × Bool :=
  if equalSign ∈ arg then
    (arg.takeWhile fun c => c != equalSign, (arg.dropWhile fun c => c != equalSign).tail, false)
  else
    match next with
    | some value => (arg, value, true)
    | none => (arg, [], false)

/-- The option with this flag. -/
def findArgument (flag : Str) : Option Argument := arguments.find? fun a => flag ∈ a.flags

/-- `CommandLine::parse` over the words behind the program's name; `skip` says that the next word
was a value.  An unknown flag only gives a warning. -/
def parse (skip : Bool) : List Str → Options → Except Str Options
  | [], o => .ok o
  | arg :: rest, o =>
    if skip = true then parse false rest o
    else
      match splitWord arg rest.head? with
      | (flag, value, valueIsSeparate) =>
        match findArgument flag with
        | none => parse false rest o
        | some a => do
          let o ← a.value.store flag value o
          parse (valueIsSeparate && a.value.takes value) rest o

/-! ### Reading numbers -/

theorem extractUnsigned_decimal (w n old : ℕ) :
    extractUnsigned w (decimal n) old = if n < 2 ^ w then n else 2 ^ w - 1 := by
  have hint : decimalInt n = decimal n := by
    rw [decimalInt, if_neg (by omega), Int.natAbs_natCast]
  have hscan : scanInt (decimal n) = (some (n : ℤ), []) := by
    have h := scanInt_decimalInt n [] (by simp)
    rwa [List.append_nil, hint] at h
  obtain ⟨c, t, hct, hc⟩ := decimalInt_head n
  rw [hint] at hct
  have hdrop : (decimal n).dropWhile isSpace = c :: t := by
    rw [hct, List.dropWhile_cons_of_neg (by simp [isSpace_of_digit c hc])]
  rw [extractUnsigned, hdrop]
  simp only
  rw [← hct, hscan]
  simp only [Int.natAbs_natCast]
  by_cases hn : n < 2 ^ w
  · rw [if_pos hn, if_pos hn]
    have hcast : ((n : ℤ) % 2 ^ w) = ((n % 2 ^ w : ℕ) : ℤ) := by push_cast; rfl
    rw [hcast, Int.toNat_natCast, Nat.mod_eq_of_lt hn]
  · rw [if_neg hn, if_neg hn]

/-! ### Words of the form `--name=value` -/

/-- A flag without the byte `=`. -/
def noEqual (name : String) : Bool := (ascii "--" ++ ascii name).all fun c => c != equalSign

theorem splitWord_option (name : String) (value : Str) (next : Option Str)
    (hname : noEqual name = true) :
    splitWord (optionWord name value) next = (ascii "--" ++ ascii name, value, false) := by
  have hword : optionWord name value = ascii "--" ++ ascii name ++ equalSign :: value := by
    rw [optionWord, List.append_assoc _ (ascii "=")]
    rfl
  have hall : ∀ c ∈ ascii "--" ++ ascii name, (c != equalSign) = true :=
    List.all_eq_true.mp hname
  rw [splitWord.eq_def, hword, if_pos (by simp), List.takeWhile_append_of_pos hall,
    List.dropWhile_append_of_pos hall, List.takeWhile_cons_of_neg (by simp),
    List.dropWhile_cons_of_neg (by simp), List.append_nil, List.tail_cons]

/-- A word with its value stores it, and the next word is a flag again. -/
theorem parse_option {name : String} {a : Argument} (hname : noEqual name = true)
    (ha : findArgument (ascii "--" ++ ascii name) = some a) (value : Str) (rest : List Str)
    (o : Options) :
    parse false (optionWord name value :: rest) o =
      a.value.store (ascii "--" ++ ascii name) value o >>= parse false rest := by
  rw [parse, if_neg (by simp), splitWord_option name value rest.head? hname]
  simp only [ha, Bool.false_and]

end Rojcpp.Judge
