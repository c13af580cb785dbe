import Rojcpp.Judge.MemoryLimit

/-!
# What `run` accepts

`run` reads the clock before it forks and after it waited, and builds the duration as a temporary
that no field receives.  So `real_time` keeps the 0 it starts with and its limit never applies.
The theorem says for which statuses, usages and times the reported result is nevertheless 0 exactly
for a run that exits with code 0 within all its limits.
-/

namespace Rojcpp.Judge

/-! ### The clock -/

/-- The milliseconds `std::chrono::duration<double, std::milli>(..).count()` is about, for two
readings of the clock in nanoseconds. -/
def millisBetween (a b : ℤ) : ℚ := (b - a : ℤ) / 1000000

/-- `run` from the return of `wait4` on, with the two readings of the clock. -/
def Result.reaped (config : Config) (status : UInt32) (usage : Rusage) (timeStart timeEnd : ℤ)
    (r : Result) : Result :=
  -- a temporary: no variable and no field gets the value
  let _ : ℚ := millisBetween timeEnd timeStart
  r.waited config status usage

/-! ### Limits -/

/-- A cpu time in milliseconds within a limit, where 0 is no limit. -/
def WithinCpu (config : Config) (millis : ℕ) : Prop :=
  config.maxCpuTime ≠ 0 → millis ≤ config.maxCpuTime.toNat

/-- The time between the two readings, within its limit in milliseconds. -/
def WithinReal (config : Config) (timeStart timeEnd : ℤ) : Prop :=
  config.maxRealTime ≠ 0 → millisBetween timeStart timeEnd ≤ config.maxRealTime.toNat

/-- The peak memory in bytes, within its limit. -/
def WithinMemory (config : Config) (usage : Rusage) : Prop :=
  config.maxMemory ≠ 0 → usage.peak ≤ config.maxMemory.toNat

/-- A run that deserves the result 0. -/
structure Accepted (config : Config) (status : UInt32) (usage : Rusage)
    (timeStart timeEnd : ℤ) : Prop where
  exited : wIfExited status = true
  code : wExitStatus status = 0
  cpu : WithinCpu config usage.millis
  real : WithinReal config timeStart timeEnd
  memory : WithinMemory config usage

/-- A run `run` turns down without the clock: a signal ended it, its code is not 0, or the memory
or the 32 bits that `cpu_time` keeps of the cpu time are over their limit. -/
def Rejected (config : Config) (status : UInt32) (usage : Rusage) : Prop :=
  wIfSignaled status = true ∨ wExitStatus status ≠ 0 ∨ ¬ WithinMemory config usage ∨
    ¬ WithinCpu config (usage.millis % 2 ^ 32)

/-- A run whose result is right: it is turned down anyway, or it exited, and neither its cpu time
nor the time that passed is over the limit. -/
def RightlyJudged (config : Config) (status : UInt32) (usage : Rusage)
    (timeStart timeEnd : ℤ) : Prop :=
  Rejected config status usage ∨
    (wIfExited status = true ∧ WithinCpu config usage.millis ∧
      WithinReal config timeStart timeEnd)

/-! ### The cascade -/

section
variable {config : Config} {status : UInt32} {usage : Rusage}

theorem toInt32_eq_zero {x : UInt32} : x.toInt32 = 0 ↔ x = 0 := by
  constructor
  · intro h
    rw [← UInt32.toUInt32_toInt32 x, h]
    rfl
  · intro h
    rw [h]
    rfl

theorem exceeds64_within :
    exceeds64 config.maxMemory (Int64.ofNat usage.peak) = false ↔ WithinMemory config usage := by
  rw [← Bool.not_eq_true, exceeds64_peak, not_and, WithinMemory]
  simp only [ne_eq, Nat.not_lt]

theorem exceeds32_within :
    exceeds32 config.maxCpuTime (Int32.ofNat usage.millis) = false ↔
      WithinCpu config (usage.millis % 2 ^ 32) := by
  have hlow : (Int32.ofNat usage.millis).toUInt32.toNat = usage.millis % 2 ^ 32 := by
    rw [Int32.toUInt32_ofNat', UInt32.toNat_ofNat']
  rw [← Bool.not_eq_true, exceeds32, Bool.and_eq_true, bne_iff_ne, decide_eq_true_eq,
    UInt32.lt_iff_toNat_lt, hlow, not_and, WithinCpu]
  simp only [ne_eq, Nat.not_lt]

/-- The signal `run` stores. -/
def storedSignal (status : UInt32) : Int32 :=
  if wIfSignaled status = true then (wTermSig status).toInt32 else 0

/-- The result alone: of the cascade's assignments the last one that applies. -/
theorem waited_result :
    (Result.zero.waited config status usage).result =
      if storedSignal status = sigUsr1 then ResultMean.systemError.toInt
      else if storedSignal status = sigSegv then
        if exceeds64 config.maxMemory (Int64.ofNat usage.peak) = true then
          ResultMean.memoryLimitExceeded.toInt
        else ResultMean.runtimeError.toInt
      else if exceeds32 config.maxCpuTime (Int32.ofNat usage.millis) = true then
        ResultMean.cpuTimeLimitExceeded.toInt
      else if exceeds64 config.maxMemory (Int64.ofNat usage.peak) = true then
        ResultMean.memoryLimitExceeded.toInt
      else if storedSignal status ≠ 0 then ResultMean.runtimeError.toInt
      else if (wExitStatus status).toInt32 ≠ 0 then ResultMean.runtimeError.toInt
      else 0 := by
  rw [Result.waited, storedSignal, Result.zero]
  simp only [apply_ite Result.result, apply_ite Result.signal, apply_ite Result.memory,
    apply_ite Result.realTime, apply_ite Result.cpuTime, apply_ite Result.exitCode, ite_self,
    exceeds32_zero, Bool.false_eq_true, if_false]

theorem storedSignal_eq_zero : storedSignal status = 0 ↔ ¬ wIfSignaled status = true := by
  rw [storedSignal]
  by_cases h : wIfSignaled status = true
  · rw [if_pos h]
    refine iff_of_false ?_ (not_not_intro h)
    intro hzero
    rw [wIfSignaled, toInt32_eq_zero.mp hzero] at h
    exact absurd h (by decide)
  · rw [if_neg h]
    exact iff_of_true rfl h

/-- **The result is 0 exactly when nothing turns the run down.** -/
theorem waited_accepts :
    (Result.zero.waited config status usage).result = 0 ↔ ¬ Rejected config status usage := by
  have hsystem : ¬ ResultMean.systemError.toInt = 0 := by decide
  have hmemory : ¬ ResultMean.memoryLimitExceeded.toInt = 0 := by decide
  have hruntime : ¬ ResultMean.runtimeError.toInt = 0 := by decide
  have hcpuTime : ¬ ResultMean.cpuTimeLimitExceeded.toInt = 0 := by decide
  rw [waited_result, Rejected, ← exceeds64_within, ← exceeds32_within, not_or, not_or, not_or,
    not_not, not_not, not_not, ← storedSignal_eq_zero, ← toInt32_eq_zero]
  by_cases hsignal : storedSignal status = 0
  · have husr : ¬ (0 : Int32) = sigUsr1 := by decide
    have hsegv : ¬ (0 : Int32) = sigSegv := by decide
    rw [hsignal, if_neg husr, if_neg hsegv]
    by_cases hcpu : exceeds32 config.maxCpuTime (Int32.ofNat usage.millis) = true
    · simp [hcpu, hcpuTime]
    · by_cases hmem : exceeds64 config.maxMemory (Int64.ofNat usage.peak) = true
      · simp [hcpu, hmem, hmemory]
      · by_cases hcode : (wExitStatus status).toInt32 = 0
        · simp [hcpu, hmem, hcode]
        · simp [hcpu, hmem, hcode, hruntime]
  · refine iff_of_false ?_ fun h => hsignal h.1
    rw [if_pos hsignal]
    split
    · exact hsystem
    · split
      · split
        · exact hmemory
        · exact hruntime
      · split
        · exact hcpuTime
        · split
          · exact hmemory
          · exact hruntime

/-- **When the reported result is right**: exactly for the runs that are turned down anyway, and
for those that exited within their cpu time and their real time. -/
theorem reaped_accepted_iff (config : Config) (status : UInt32) (usage : Rusage)
    (timeStart timeEnd : ℤ) :
    ((Result.zero.reaped config status usage timeStart timeEnd).result = 0 ↔
        Accepted config status usage timeStart timeEnd) ↔
      RightlyJudged config status usage timeStart timeEnd := by
  have hlow : WithinCpu config usage.millis → WithinCpu config (usage.millis % 2 ^ 32) :=
    fun h hlimit => (Nat.mod_le _ _).trans (h hlimit)
  rw [Result.reaped, waited_accepts]
  constructor
  · intro h
    by_cases hrejected : Rejected config status usage
    · exact .inl hrejected
    · have haccepted := h.mp hrejected
      exact .inr ⟨haccepted.exited, haccepted.cpu, haccepted.real⟩
  · intro hright
    constructor
    · intro hpassed
      cases hright with
      | inl hrejected => exact absurd hrejected hpassed
      | inr hwithin =>
        rw [Rejected, not_or, not_or, not_or, not_not, not_not, not_not] at hpassed
        obtain ⟨-, hcode, hmemory, -⟩ := hpassed
        exact ⟨hwithin.1, hcode, hwithin.2.1, hwithin.2.2, hmemory⟩
    · intro haccepted hrejected
      rcases hrejected with hsignal | hcode | hmemory | hcpu
      · rw [wIfSignaled, beq_iff_eq.mp haccepted.exited] at hsignal
        exact absurd hsignal (by decide)
      · exact hcode haccepted.code
      · exact hmemory haccepted.memory
      · exact hcpu (hlow haccepted.cpu)

end

/-! ### A program that sleeps -/

/-- A limit of one second of real time. -/
def oneSecond : Config := { maxRealTime := 1000 }

/-- **A program that sleeps for an hour is accepted** under a limit of one second. -/
theorem sleeping_accepted : ¬ ∀ (config : Config) (status : UInt32) (usage : Rusage)
    (timeStart timeEnd : ℤ),
    (Result.zero.reaped config status usage timeStart timeEnd).result = 0 ↔
      Accepted config status usage timeStart timeEnd := by
  intro hall
  have haccepted := (hall oneSecond 0 megabyteUsage 0 3600000000000).mp (by decide)
  have hreal := haccepted.real (by decide)
  have hlimit : (oneSecond.maxRealTime.toNat : ℚ) = 1000 := rfl
  rw [hlimit, millisBetween] at hreal
  norm_num at hreal

end Rojcpp.Judge
