import Rojcpp.Judge.MemoryLimit

/-!
# From `judge_args` to `config`

The judge server prints its `judge_args` on a command line, the shell splits the line, and
`judger_core` parses the words into its `config`.  The theorem composes the three for every
`judge_args` whose texts the shell leaves alone: all seventeen fields arrive, the lists of any
length in their order.

The ids are `int` on one side and `uint32_t` on the other, so a negative one wraps around.
-/

namespace Rojcpp.Judge

open Rojcpp.Lib

/-! ### Text the shell leaves alone -/

/-- The bytes that do not stand for themselves between double quotes: the double quote, the
backslash, the dollar sign and the backquote. -/
def isSpecial (c : UInt8) : Bool := c == dquote || c == backslash || c == '$' || c == 96

/-- A text that arrives as it is when it is put between double quotes. -/
structure Literal (s : Str) : Prop where
  ne_nil : s ≠ []
  special : ∀ c ∈ s, isSpecial c = false
  zero : 0 ∉ s

/-- The three conditions as one test. -/
def isLiteral (s : Str) : Bool := !s.isEmpty && s.all fun c => !isSpecial c && c != 0

theorem literal_of_check {s : Str} (h : isLiteral s = true) : Literal s := by
  simp only [isLiteral, Bool.and_eq_true, Bool.not_eq_true', List.isEmpty_eq_false_iff,
    List.all_eq_true, bne_iff_ne] at h
  exact ⟨h.1, fun c hc => (h.2 c hc).1, fun hmem => (h.2 0 hmem).2 rfl⟩

theorem literals_of_check {es : List Str} (h : es.all isLiteral = true) : ∀ e ∈ es, Literal e :=
  fun e he => literal_of_check (List.all_eq_true.mp h e he)

/-- A word that needs no quotes. -/
structure PlainWord (s : Str) : Prop where
  ne_nil : s ≠ []
  plain : ∀ c ∈ s, isPlain c = true

/-- What POSIX says about double quotes: every byte but the special ones keeps its literal
value. -/
def LiteralQuotes (expand : Str → Str) : Prop :=
  ∀ s : Str, (∀ c ∈ s, isSpecial c = false) → expand s = s

theorem escapeQuoted_literal {s : Str} (h : ∀ c ∈ s, isSpecial c = false) : escapeQuoted s = s := by
  induction s with
  | nil => rfl
  | cons c s ih =>
    have hc := h c (by simp)
    simp only [isSpecial, Bool.or_eq_false_iff, beq_eq_false_iff_ne] at hc
    obtain ⟨⟨⟨hquote, hback⟩, -⟩, -⟩ := hc
    have hnot : ¬ (c = dquote ∨ c = backslash) := by
      intro hor
      cases hor with
      | inl h => exact hquote h
      | inr h => exact hback h
    have htail : escapeQuoted s = s := ih fun d hd => h d (by simp [hd])
    rw [escapeQuoted, List.flatMap_cons, if_neg hnot]
    show c :: escapeQuoted s = c :: s
    rw [htail]

/-- A text without quotes and backslashes is printed like a path. -/
theorem inQuotes_literal {s : Str} (h : ∀ c ∈ s, isSpecial c = false) :
    inQuotes s = quotedPath s := by
  rw [quotedPath_eq, escapeQuoted_literal h]
  rfl

/-! ### The options of the arguments -/

/-- The options in front of the lists. -/
def JudgeArgs.headTexts (a : JudgeArgs) : List OptionText := [
  .plain "max_cpu_time" (toStringULL a.maxCpuTime),
  .plain "max_real_time" (toStringULL a.maxRealTime),
  .plain "max_process_number" (toStringULL a.maxProcessNumber),
  .plain "max_memory" (toStringULL a.maxMemory),
  .plain "max_stack" (toStringULL a.maxStack),
  .plain "max_output_size" (toStringULL a.maxOutputSize),
  .plain "seccomp_rule_name" a.seccompRuleName,
  .quoted "cwd" a.cwd,
  .quoted "input_path" a.inputPath,
  .quoted "output_path" a.outputPath,
  .quoted "error_path" a.errorPath,
  .quoted "log_path" a.logPath,
  .quoted "exe_path" a.exePath]

/-- The options behind the lists. -/
def JudgeArgs.tailTexts (a : JudgeArgs) : List OptionText := [
  .plain "gid" (toStringInt a.gid),
  .plain "uid" (toStringInt a.uid)]

/-- All options, with lists of any length. -/
def JudgeArgs.texts (a : JudgeArgs) : List OptionText :=
  a.headTexts ++ (a.args.map (.quoted "args") ++ (a.env.map (.quoted "env") ++ a.tailTexts))

/-- What the round trip asks of the arguments. -/
structure JudgeArgs.Printable (a : JudgeArgs) : Prop where
  rule : PlainWord a.seccompRuleName
  cwd : Literal a.cwd
  inputPath : Literal a.inputPath
  outputPath : Literal a.outputPath
  errorPath : Literal a.errorPath
  logPath : Literal a.logPath
  exePath : Literal a.exePath
  args : ∀ e ∈ a.args, Literal e
  env : ∀ e ∈ a.env, Literal e
  maxCpuTime : a.maxCpuTime.toNat < 2 ^ 32
  maxRealTime : a.maxRealTime.toNat < 2 ^ 32
  maxProcessNumber : a.maxProcessNumber.toNat < 2 ^ 32

/-- The texts of one list. -/
theorem flatMap_inQuotes (name : String) {es : List Str} (h : ∀ e ∈ es, Literal e) :
    es.flatMap (fun e => option name (inQuotes e)) =
      (es.map (OptionText.quoted name)).flatMap OptionText.text := by
  induction es with
  | nil => rfl
  | cons e es ih =>
    rw [List.flatMap_cons, List.map_cons, List.flatMap_cons, ih fun d hd => h d (by simp [hd]),
      inQuotes_literal (h e (by simp)).special]
    rfl

theorem toStr_texts {a : JudgeArgs} (ha : a.Printable) :
    a.toStr = ascii " " ++ a.texts.flatMap OptionText.text := by
  unfold JudgeArgs.toStr JudgeArgs.texts JudgeArgs.headTexts JudgeArgs.tailTexts
  rw [flatMap_inQuotes "args" ha.args, flatMap_inQuotes "env" ha.env]
  simp only [List.flatMap_append, List.flatMap_cons, List.flatMap_nil, OptionText.text,
    List.append_assoc, List.append_nil]

/-! ### The words of the command line -/

/-- Nothing in the option ends a C string. -/
def OptionText.ZeroFree : OptionText → Prop
  | .plain _ _ => True
  | .quoted _ path => 0 ∉ path

section
variable (expand : Str → Str)

theorem shellWords_text {o : OptionText} (ho : o.Plain) (s : Str) :
    shellWords expand .between (o.text ++ s) =
      (shellWords expand .between s).map fun ws => o.word expand :: ws := by
  cases o with
  | plain name value =>
    rw [OptionText.text, option_append,
      shellWords_plainWord expand (optionWord_ne_nil name value) ho]
    rfl
  | quoted name path =>
    have hword : ∀ v, optionWord name v = optionWord name [] ++ v := by
      intro v
      rw [optionWord, optionWord, List.append_nil]
    rw [OptionText.text, option_append, hword,
      shellWords_quotedWord expand (optionWord_ne_nil name []) ho, OptionText.word, ← hword]

/-- The shell makes one word of each option, and none else. -/
theorem shellWords_texts {os : List OptionText} (h : ∀ o ∈ os, o.Plain) :
    shellWords expand .between (os.flatMap OptionText.text) =
      some (os.map (OptionText.word expand)) := by
  induction os with
  | nil => rfl
  | cons o os ih =>
    rw [List.flatMap_cons, shellWords_text expand (h o (by simp)),
      ih fun p hp => h p (by simp [hp])]
    rfl

end

theorem text_zero {o : OptionText} (ho : o.Plain) (hzero : o.ZeroFree) : 0 ∉ o.text := by
  have hblank : 0 ∉ ascii " " := by decide
  cases o with
  | plain name value =>
    intro hmem
    rw [OptionText.text, option] at hmem
    cases List.mem_append.mp hmem with
    | inl hmem => exact isPlain_zero ho hmem
    | inr hmem => exact hblank hmem
  | quoted name path =>
    have hname : 0 ∉ optionWord name [] := isPlain_zero ho
    rw [optionWord, List.append_nil] at hname
    intro hmem
    rw [OptionText.text, option] at hmem
    cases List.mem_append.mp hmem with
    | inl hmem =>
      cases List.mem_append.mp hmem with
      | inl hmem => exact hname hmem
      | inr hmem => exact quotedPath_zero hzero hmem
    | inr hmem => exact hblank hmem

/-- A text without a zero byte is handed on as a whole. -/
theorem cStr_self {s : Str} (h : 0 ∉ s) : cStr s = s := by
  have hcut : cStr (s ++ []) = s ++ [] := cStr_append h []
  rwa [List.append_nil] at hcut

theorem plain_list (name : String) (hname : (optionWord name []).all isPlain = true)
    {es : List Str} {o : OptionText} (ho : o ∈ es.map (OptionText.quoted name)) : o.Plain := by
  obtain ⟨e, -, rfl⟩ := List.mem_map.mp ho
  exact List.all_eq_true.mp hname

theorem texts_plain {a : JudgeArgs} (ha : a.Printable) : ∀ o ∈ a.texts, o.Plain := by
  intro o ho
  simp only [JudgeArgs.texts, JudgeArgs.headTexts, JudgeArgs.tailTexts, List.mem_append] at ho
  rcases ho with ho | ho | ho | ho
  · fin_cases ho
    · exact isPlain_optionWord rfl (isPlain_decimal _)
    · exact isPlain_optionWord rfl (isPlain_decimal _)
    · exact isPlain_optionWord rfl (isPlain_decimal _)
    · exact isPlain_optionWord rfl (isPlain_decimal _)
    · exact isPlain_optionWord rfl (isPlain_decimal _)
    · exact isPlain_optionWord rfl (isPlain_decimal _)
    · exact isPlain_optionWord rfl ha.rule.plain
    all_goals exact List.all_eq_true.mp rfl
  · exact plain_list "args" rfl ho
  · exact plain_list "env" rfl ho
  · fin_cases ho
    all_goals exact isPlain_optionWord rfl (isPlain_decimalInt _)

theorem texts_zero {a : JudgeArgs} (ha : a.Printable) : ∀ o ∈ a.texts, o.ZeroFree := by
  intro o ho
  simp only [JudgeArgs.texts, JudgeArgs.headTexts, JudgeArgs.tailTexts, List.mem_append] at ho
  rcases ho with ho | ho | ho | ho
  · fin_cases ho
    iterate 7 exact trivial
    · exact ha.cwd.zero
    · exact ha.inputPath.zero
    · exact ha.outputPath.zero
    · exact ha.errorPath.zero
    · exact ha.logPath.zero
    · exact ha.exePath.zero
  · obtain ⟨e, he, rfl⟩ := List.mem_map.mp ho
    exact (ha.args e he).zero
  · obtain ⟨e, he, rfl⟩ := List.mem_map.mp ho
    exact (ha.env e he).zero
  · fin_cases ho
    all_goals exact trivial

/-- **The words of the command**: the program's name and one word for each option. -/
theorem shellWords_command {a : JudgeArgs} (ha : a.Printable) (expand : Str → Str) :
    shellWords expand .between (cStr (judgerBin ++ a.toStr)) =
      some (judgerBin :: a.texts.map (OptionText.word expand)) := by
  have hbin : ∀ c ∈ judgerBin, isPlain c = true := List.all_eq_true.mp rfl
  have hzero : 0 ∉ judgerBin ++ a.toStr := by
    rw [toStr_texts ha]
    intro hmem
    rcases List.mem_append.mp hmem with hmem | hmem
    · exact isPlain_zero hbin hmem
    · rcases List.mem_append.mp hmem with hmem | hmem
      · exact absurd hmem (by decide)
      · obtain ⟨o, ho, hmem⟩ := List.mem_flatMap.mp hmem
        exact text_zero (texts_plain ha o ho) (texts_zero ha o ho) hmem
  rw [cStr_self hzero, toStr_texts ha]
  show shellWords expand .between (judgerBin ++ 32 :: a.texts.flatMap OptionText.text) = _
  rw [shellWords_plainWord expand (by decide) hbin, shellWords_texts expand (texts_plain ha)]
  rfl

/-! ### Storing the words -/

theorem extractUnsigned_decimalInt (w : ℕ) {z : ℤ} (hz : z.natAbs < 2 ^ w) (old : ℕ) :
    extractUnsigned w (decimalInt z) old = (z % 2 ^ w).toNat := by
  have hscan : scanInt (decimalInt z) = (some z, []) := by
    have h := scanInt_decimalInt z [] (by simp)
    rwa [List.append_nil] at h
  obtain ⟨c, t, hct, hc⟩ := decimalInt_head z
  have hdrop : (decimalInt z).dropWhile isSpace = c :: t := by
    rw [hct, List.dropWhile_cons_of_neg (by simp [isSpace_of_digit c hc])]
  rw [extractUnsigned, hdrop]
  simp only
  rw [← hct, hscan]
  show (if z.natAbs < 2 ^ w then (z % 2 ^ w).toNat else 2 ^ w - 1) = _
  rw [if_pos hz]

/-- An `int` that wraps around is its conversion to `uint32_t`. -/
theorem toNat_emod_toInt (z : Int32) : (z.toInt % 2 ^ 32).toNat = z.toUInt32.toNat := by
  have hbits : BitVec.ofInt 32 z.toInt = z.toBitVec := BitVec.ofInt_toInt
  have h := BitVec.toNat_ofInt (n := 32) z.toInt
  rw [hbits] at h
  exact h.symm

section
variable {name : String} {flags : List Str}

/-- A 32-bit limit that fits. -/
theorem parse_uint32 {get : Options → UInt32} {set : UInt32 → Options → Options}
    (hname : noEqual name = true)
    (hfind : findArgument (ascii "--" ++ ascii name) = some ⟨flags, .uint32 get set⟩)
    {n : UInt64} (hn : n.toNat < 2 ^ 32) (rest : List Str) (o : Options) :
    parse false (optionWord name (toStringULL n) :: rest) o =
      parse false rest (set (UInt32.ofNat n.toNat) o) := by
  rw [parse_option hname hfind, toStringULL, Value.store, if_neg (decimal_ne_nil _),
    extractUnsigned_decimal, if_pos hn]
  rfl

/-- A 64-bit limit. -/
theorem parse_uint64 {get : Options → UInt64} {set : UInt64 → Options → Options}
    (hname : noEqual name = true)
    (hfind : findArgument (ascii "--" ++ ascii name) = some ⟨flags, .uint64 get set⟩)
    (n : UInt64) (rest : List Str) (o : Options) :
    parse false (optionWord name (toStringULL n) :: rest) o = parse false rest (set n o) := by
  rw [parse_option hname hfind, toStringULL, Value.store, if_neg (decimal_ne_nil _),
    extractUnsigned_decimal, if_pos n.toNat_lt, UInt64.ofNat_toNat]
  rfl

/-- An `int` that is read as an unsigned number. -/
theorem parse_id {get : Options → UInt32} {set : UInt32 → Options → Options}
    (hname : noEqual name = true)
    (hfind : findArgument (ascii "--" ++ ascii name) = some ⟨flags, .uint32 get set⟩)
    (z : Int32) (rest : List Str) (o : Options) :
    parse false (optionWord name (toStringInt z) :: rest) o =
      parse false rest (set z.toUInt32 o) := by
  have hlo := z.le_toInt
  have hhi := z.toInt_lt
  have hfit : z.toInt.natAbs < 2 ^ 32 := by omega
  rw [parse_option hname hfind, toStringInt, Value.store, if_neg (decimalInt_ne_nil _),
    extractUnsigned_decimalInt 32 hfit, toNat_emod_toInt, UInt32.ofNat_toNat]
  rfl

/-- A text. -/
theorem parse_string {set : Str → Options → Options} (hname : noEqual name = true)
    (hfind : findArgument (ascii "--" ++ ascii name) = some ⟨flags, .string set⟩)
    {s : Str} (hs : s ≠ []) (rest : List Str) (o : Options) :
    parse false (optionWord name s :: rest) o = parse false rest (set s o) := by
  rw [parse_option hname hfind, Value.store, if_neg hs]
  rfl

/-- A quoted text. -/
theorem parse_literal {expand : Str → Str} (hexpand : LiteralQuotes expand)
    {set : Str → Options → Options} (hname : noEqual name = true)
    (hfind : findArgument (ascii "--" ++ ascii name) = some ⟨flags, .string set⟩)
    {s : Str} (hs : Literal s) (rest : List Str) (o : Options) :
    parse false ((OptionText.quoted name s).word expand :: rest) o =
      parse false rest (set s o) := by
  rw [OptionText.word, escapeQuoted_literal hs.special, hexpand s hs.special,
    parse_string hname hfind hs.ne_nil]

end

/-! ### The lists -/

/-- The words of a list, in their order: each is put behind the ones that are there. -/
theorem parse_strings {expand : Str → Str} (hexpand : LiteralQuotes expand) {name : String}
    {flags : List Str} {get : Options → List Str} {set : List Str → Options → Options}
    (hname : noEqual name = true)
    (hfind : findArgument (ascii "--" ++ ascii name) = some ⟨flags, .strings get set⟩)
    (hget : ∀ v o, get (set v o) = v) (hset : ∀ v w o, set v (set w o) = set v o)
    (hself : ∀ o, set (get o) o = o) {es : List Str} (hes : ∀ e ∈ es, Literal e)
    (rest : List Str) (o : Options) :
    parse false ((es.map (OptionText.quoted name)).map (OptionText.word expand) ++ rest) o =
      parse false rest (set (get o ++ es) o) := by
  induction es generalizing o with
  | nil => rw [List.append_nil, hself, List.map_nil, List.map_nil, List.nil_append]
  | cons e es ih =>
    have he := hes e (by simp)
    rw [List.map_cons, List.map_cons, List.cons_append, OptionText.word,
      escapeQuoted_literal he.special, hexpand e he.special, parse_option hname hfind, Value.store,
      if_neg he.ne_nil]
    show parse false _ (set (get o ++ [e]) o) = _
    rw [ih fun d hd => hes d (by simp [hd]), hget, hset, List.append_assoc, List.singleton_append]

/-- The words of `--args`, in their order. -/
theorem parse_args {expand : Str → Str} (hexpand : LiteralQuotes expand) {es : List Str}
    (hes : ∀ e ∈ es, Literal e) (rest : List Str) (o : Options) :
    parse false ((es.map (OptionText.quoted "args")).map (OptionText.word expand) ++ rest) o =
      parse false rest { o with config.args := o.config.args ++ es } := by
  have hfind : findArgument (ascii "--" ++ ascii "args") = some ⟨[ascii "--args"],
      .strings (fun o => o.config.args) fun v o => { o with config.args := v }⟩ := rfl
  exact parse_strings hexpand rfl hfind (fun _ _ => rfl) (fun _ _ _ => rfl) (fun _ => rfl) hes rest
    o

/-- The words of `--env`, in their order. -/
theorem parse_env {expand : Str → Str} (hexpand : LiteralQuotes expand) {es : List Str}
    (hes : ∀ e ∈ es, Literal e) (rest : List Str) (o : Options) :
    parse false ((es.map (OptionText.quoted "env")).map (OptionText.word expand) ++ rest) o =
      parse false rest { o with config.env := o.config.env ++ es } := by
  have hfind : findArgument (ascii "--" ++ ascii "env") = some ⟨[ascii "--env"],
      .strings (fun o => o.config.env) fun v o => { o with config.env := v }⟩ := rfl
  exact parse_strings hexpand rfl hfind (fun _ _ => rfl) (fun _ _ _ => rfl) (fun _ => rfl) hes rest
    o

/-! ### The configuration -/

/-- The configuration the arguments stand for. -/
def JudgeArgs.config (a : JudgeArgs) : Config where
  maxCpuTime := UInt32.ofNat a.maxCpuTime.toNat
  maxRealTime := UInt32.ofNat a.maxRealTime.toNat
  maxProcessNumber := UInt32.ofNat a.maxProcessNumber.toNat
  maxOutputSize := a.maxOutputSize
  maxMemory := a.maxMemory
  maxStack := a.maxStack
  cwd := a.cwd
  exePath := a.exePath
  inputPath := a.inputPath
  outputPath := a.outputPath
  errorPath := a.errorPath
  args := a.args
  env := a.env
  logPath := a.logPath
  seccompRuleName := a.seccompRuleName
  uid := a.uid.toUInt32
  gid := a.gid.toUInt32

/-- **Parsing the words gives this configuration**, whatever the lists hold. -/
theorem parse_texts {a : JudgeArgs} (ha : a.Printable) {expand : Str → Str}
    (hexpand : LiteralQuotes expand) :
    parse false (a.texts.map (OptionText.word expand)) {} =
      .ok { help := false, showVersion := false, config := a.config } := by
  rw [JudgeArgs.texts, List.map_append, List.map_append, List.map_append, JudgeArgs.headTexts]
  simp only [List.map_cons, List.map_nil, List.cons_append, List.nil_append]
  show parse false (optionWord "max_cpu_time" (toStringULL a.maxCpuTime) ::
    optionWord "max_real_time" (toStringULL a.maxRealTime) ::
    optionWord "max_process_number" (toStringULL a.maxProcessNumber) ::
    optionWord "max_memory" (toStringULL a.maxMemory) ::
    optionWord "max_stack" (toStringULL a.maxStack) ::
    optionWord "max_output_size" (toStringULL a.maxOutputSize) ::
    optionWord "seccomp_rule_name" a.seccompRuleName :: _) {} = _
  rw [parse_uint32 rfl rfl ha.maxCpuTime, parse_uint32 rfl rfl ha.maxRealTime,
    parse_uint32 rfl rfl ha.maxProcessNumber, parse_uint64 rfl rfl, parse_uint64 rfl rfl,
    parse_uint64 rfl rfl, parse_string rfl rfl ha.rule.ne_nil, parse_literal hexpand rfl rfl ha.cwd,
    parse_literal hexpand rfl rfl ha.inputPath, parse_literal hexpand rfl rfl ha.outputPath,
    parse_literal hexpand rfl rfl ha.errorPath, parse_literal hexpand rfl rfl ha.logPath,
    parse_literal hexpand rfl rfl ha.exePath, parse_args hexpand ha.args, parse_env hexpand ha.env]
  show parse false [optionWord "gid" (toStringInt a.gid), optionWord "uid" (toStringInt a.uid)] _ =
    _
  rw [parse_id rfl rfl, parse_id rfl rfl]
  rfl

/-! ### The seventeen fields -/

/-- A configuration whose fields are those of the arguments, with these numbers as its ids. -/
structure Config.Agrees (c : Config) (a : JudgeArgs) (gid uid : ℤ) : Prop where
  maxCpuTime : c.maxCpuTime.toNat = a.maxCpuTime.toNat
  maxRealTime : c.maxRealTime.toNat = a.maxRealTime.toNat
  maxProcessNumber : c.maxProcessNumber.toNat = a.maxProcessNumber.toNat
  maxMemory : c.maxMemory = a.maxMemory
  maxStack : c.maxStack = a.maxStack
  maxOutputSize : c.maxOutputSize = a.maxOutputSize
  seccompRuleName : c.seccompRuleName = a.seccompRuleName
  cwd : c.cwd = a.cwd
  inputPath : c.inputPath = a.inputPath
  outputPath : c.outputPath = a.outputPath
  errorPath : c.errorPath = a.errorPath
  logPath : c.logPath = a.logPath
  exePath : c.exePath = a.exePath
  args : c.args = a.args
  env : c.env = a.env
  gid : (c.gid.toNat : ℤ) = gid
  uid : (c.uid.toNat : ℤ) = uid

/-- An `int` as an unsigned number. -/
theorem toUInt32_toNat (z : Int32) : (z.toUInt32.toNat : ℤ) = z.toInt % 2 ^ 32 := by
  have hnonneg : 0 ≤ z.toInt % 2 ^ 32 := Int.emod_nonneg _ (by decide)
  rw [← toNat_emod_toInt, Int.toNat_of_nonneg hnonneg]

theorem config_agrees {a : JudgeArgs} (ha : a.Printable) :
    a.config.Agrees a (a.gid.toInt % 2 ^ 32) (a.uid.toInt % 2 ^ 32) where
  maxCpuTime := UInt32.toNat_ofNat_of_lt' ha.maxCpuTime
  maxRealTime := UInt32.toNat_ofNat_of_lt' ha.maxRealTime
  maxProcessNumber := UInt32.toNat_ofNat_of_lt' ha.maxProcessNumber
  maxMemory := rfl
  maxStack := rfl
  maxOutputSize := rfl
  seccompRuleName := rfl
  cwd := rfl
  inputPath := rfl
  outputPath := rfl
  errorPath := rfl
  logPath := rfl
  exePath := rfl
  args := rfl
  env := rfl
  gid := toUInt32_toNat a.gid
  uid := toUInt32_toNat a.uid

/-- **The configuration of `judger_core` is that of the arguments**: printing, splitting and
parsing give all their fields back, the ids modulo 2^32. -/
theorem judgeArgs_config {a : JudgeArgs} (ha : a.Printable) {expand : Str → Str}
    (hexpand : LiteralQuotes expand) :
    ∃ words o, shellWords expand .between (cStr (judgerBin ++ a.toStr)) =
        some (judgerBin :: words) ∧
      parse false words {} = .ok o ∧
      o.config.Agrees a (a.gid.toInt % 2 ^ 32) (a.uid.toInt % 2 ^ 32) :=
  ⟨_, _, shellWords_command ha expand, parse_texts ha hexpand, config_agrees ha⟩

/-! ### A negative id -/

/-- Arguments with blanks and `=` in their texts, and a group id of -1. -/
def negativeArgs : JudgeArgs where
  maxCpuTime := 1000
  maxRealTime := 10000
  maxProcessNumber := 10
  maxMemory := 8 * gib
  maxStack := 0
  maxOutputSize := 0
  seccompRuleName := ascii "null"
  cwd := ascii "/tmp/a b"
  inputPath := ascii "a.in"
  outputPath := ascii "a.out"
  errorPath := ascii "judge_error"
  logPath := ascii "judge_log"
  exePath := ascii "main"
  args := [ascii "-x", ascii "k=v w", ascii "-x"]
  env := [ascii "PATH=/usr/bin"]
  gid := -1
  uid := 0

theorem negativeArgs_printable : negativeArgs.Printable where
  rule := ⟨by decide, List.all_eq_true.mp rfl⟩
  cwd := literal_of_check rfl
  inputPath := literal_of_check rfl
  outputPath := literal_of_check rfl
  errorPath := literal_of_check rfl
  logPath := literal_of_check rfl
  exePath := literal_of_check rfl
  args := literals_of_check rfl
  env := literals_of_check rfl
  maxCpuTime := by decide
  maxRealTime := by decide
  maxProcessNumber := by decide

theorem literalQuotes_id : LiteralQuotes id := fun _ _ => rfl

theorem judgeArgs_config_negative :
    ∃ words o, shellWords id .between (cStr (judgerBin ++ negativeArgs.toStr)) =
        some (judgerBin :: words) ∧
      parse false words {} = .ok o ∧
      o.config.Agrees negativeArgs (negativeArgs.gid.toInt % 2 ^ 32)
        (negativeArgs.uid.toInt % 2 ^ 32) :=
  judgeArgs_config negativeArgs_printable literalQuotes_id

/-- **A group id of -1 arrives as 4294967295.** -/
theorem negative_gid_wraps : ¬ ∀ (a : JudgeArgs) (expand : Str → Str), a.Printable →
    LiteralQuotes expand →
    ∃ words o, shellWords expand .between (cStr (judgerBin ++ a.toStr)) =
        some (judgerBin :: words) ∧
      parse false words {} = .ok o ∧ o.config.Agrees a a.gid.toInt a.uid.toInt := by
  intro hall
  obtain ⟨words, o, hwords, hparse, hagrees⟩ :=
    hall negativeArgs id negativeArgs_printable literalQuotes_id
  rw [shellWords_command negativeArgs_printable id] at hwords
  have hlist := (List.cons.inj (Option.some.inj hwords)).2
  rw [← hlist, parse_texts negativeArgs_printable literalQuotes_id] at hparse
  have ho := Except.ok.inj hparse
  have hgid : (o.config.gid.toNat : ℤ) = -1 := hagrees.gid
  rw [← ho] at hgid
  exact absurd hgid (by decide)

end Rojcpp.Judge
