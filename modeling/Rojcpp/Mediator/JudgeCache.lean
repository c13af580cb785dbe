import Rojcpp.Cpp.Text
import Rojcpp.Mediator.ReadWriteLock

/-!
# The cache of judge results

`judgeCache` keeps a map behind an `RWLock`.  An operation takes the lock, looks at the map or
changes it, and gives the lock back; between these steps other threads take theirs.  The miss path
of `get` is the exception: it calls `lock_read` where its hit path calls `unlock_read`.

`counters_zero_iff` says what follows: when no operation is in progress the lock is free exactly
if no `get` has looked for a key that was not there.
-/

namespace Rojcpp.Mediator

open Rojcpp.Lib Function

/-- `judgeMsg`; times are counted in ticks of the steady clock. -/
structure JudgeMsg where
  endTime : ℤ
  point : Int32
  allPoint : Int32
  resultCode : Int32
  res : Str
  deriving DecidableEq, Repr

/-- `judgeCache::_map`. -/
abbrev CacheMap := UInt64 → Option JudgeMsg

/-- The calls of the operations. -/
inductive CacheOp where
  | hasKey (key : UInt64)
  | get (key : UInt64)
  | delete (key : UInt64)
  | create (key : UInt64) (point allPoint resultCode : Int32) (res : Str)
  | checkExpire
  deriving DecidableEq, Repr

/-- What an operation returns. -/
inductive CacheRet where
  | bool (b : Bool)
  | value (msg : JudgeMsg)
  | nullptr
  | void
  deriving DecidableEq, Repr

/-- The lock an operation takes first. -/
def CacheOp.mode : CacheOp → Mode
  | .hasKey _ => .read
  | .get _ => .read
  | .delete _ => .write
  | .create .. => .write
  | .checkExpire => .write

/-- Five minutes of the steady clock, which counts nanoseconds. -/
def fiveMinutes : ℤ := 60 * 5 * 1000000000

/-- What an operation does to the map between its two calls of the lock, at the time `now`: the
new map and what it returns. -/
def CacheOp.access (map : CacheMap) (now : ℤ) : CacheOp → CacheMap × CacheRet
  | .hasKey key => (map, .bool (map key).isSome)
  | .get key =>
    match map key with
    | some msg => (map, .value msg)
    | none => (map, .nullptr)
  | .delete key => (update map key none, .void)
  | .create key point allPoint resultCode res =>
    (update map key (some ⟨now + fiveMinutes, point, allPoint, resultCode, res⟩), .void)
  | .checkExpire => (fun key => (map key).filter fun msg => !decide (msg.endTime < now), .void)

/-- Where a thread is in an operation: in none, with the result of its last one; in front of the
lock; behind it; about to unlock; or about to lock again, as `get` does after a miss. -/
inductive Pc where
  | idle (last : Option CacheRet)
  | entering (op : CacheOp)
  | inside (op : CacheOp)
  | leaving (op : CacheOp) (ret : CacheRet)
  | relocking
  deriving DecidableEq, Repr

/-- The cache and the threads that call it. -/
structure CacheState (τ : Type*) where
  locks : LockState τ
  map : CacheMap
  pc : τ → Pc

/-- The steps of a thread: it calls an operation; it takes the mutex of the lock to lock it; it
looks at the map; it unlocks; or it wakes up in `cv.wait` without a notification. -/
inductive CacheAction (τ : Type*) where
  | call (t : τ) (op : CacheOp)
  | enter (t : τ)
  | body (t : τ) (now : ℤ)
  | unlock (t : τ)
  | spurious (t : τ)
  deriving DecidableEq, Repr

section
variable {τ : Type*} [DecidableEq τ]

/-- A thread tries to lock, for the first time or after a wakeup. -/
def tryLock (s : LockState τ) (t : τ) (m : Mode) : Option (LockState τ) :=
  if (s.threads t).place = .outside then lockStep s (.lock t m) else lockStep s (.retry t)

/-- A thread goes on behind the lock, if it did not fall asleep. -/
def CacheState.entered (s : CacheState τ) (t : τ) (next : Pc) (locks : LockState τ) :
    CacheState τ :=
  { s with locks, pc := if (locks.threads t).place = .outside then update s.pc t next else s.pc }

/-- One step. -/
def cacheStep (s : CacheState τ) : CacheAction τ → Option (CacheState τ)
  | .call t op =>
    match s.pc t with
    | .idle _ => some { s with pc := update s.pc t (.entering op) }
    | _ => none
  | .enter t =>
    match s.pc t with
    | .entering op => (tryLock s.locks t op.mode).map (s.entered t (.inside op))
    | .relocking => (tryLock s.locks t .read).map (s.entered t (.idle (some .nullptr)))
    | _ => none
  | .body t now =>
    match s.pc t with
    | .inside op =>
      let r := op.access s.map now
      let next := if r.2 = .nullptr then .relocking else .leaving op r.2
      some { s with map := r.1, pc := update s.pc t next }
    | _ => none
  | .unlock t =>
    match s.pc t with
    | .leaving op ret => (lockStep s.locks (.unlock t op.mode)).map fun locks =>
        { s with locks, pc := update s.pc t (.idle (some ret)) }
    | _ => none
  | .spurious t => (lockStep s.locks (.spurious t)).map fun locks => { s with locks }

/-- The cache before any operation. -/
def judgeCache (τ : Type*) [DecidableEq τ] : System (CacheState τ) (CacheAction τ) :=
  ⟨⟨(rwLock τ).start, fun _ => none, fun _ => .idle none⟩, cacheStep⟩

end

/-- No operation is in progress. -/
def CacheState.Quiet {τ : Type*} (s : CacheState τ) : Prop := ∀ t, ∃ last, s.pc t = .idle last

/-- The lock is free, and a thread that wants to write gets it. -/
def RWLock.Released (l : RWLock) : Prop :=
  l.readCnt = 0 ∧ l.writeCnt = 0 ∧ l.lockWrite ≠ none

/-- No step of a `get` finds its key missing. -/
def NoMiss {τ : Type*} (s : CacheState τ) (a : CacheAction τ) : Prop :=
  ∀ t now key, a = .body t now → s.pc t = .inside (.get key) → s.map key ≠ none

/-! ### One thread -/

/-- The mode a thread at this place may be waiting for. -/
def Pc.want : Pc → Option Mode
  | .entering op => some op.mode
  | .relocking => some .read
  | _ => none

/-- The locks a thread at this place is about to give back. -/
def Pc.owes : Pc → Mode → ℕ
  | .inside op, m => if op.mode = m then 1 else 0
  | .leaving op _, m => if op.mode = m then 1 else 0
  | _, _ => 0

/-- A thread waits only where its operation may, and holds at least what it will give back. -/
structure Consistent (pc : Pc) (th : Thread) : Prop where
  waiting : ∀ m, th.place.waiting = some m → pc.want = some m
  writes : th.writes = pc.owes .write
  reads : pc.owes .read ≤ th.reads
  missed : pc = .relocking → 0 < th.reads

/-- It holds a read lock that it will never give back. -/
def Leaking (pc : Pc) (th : Thread) : Prop := pc.owes .read < th.reads

/-- A thread's operation finds its key missing. -/
def MissBy {τ : Type*} (s : CacheState τ) (a : CacheAction τ) (t : τ) : Prop :=
  ∃ now key, a = .body t now ∧ s.pc t = .inside (.get key) ∧ s.map key = none

/-- What a thread does counts for a thread that is not asleep or was woken for this mode. -/
theorem tryLock_eq {τ : Type*} [DecidableEq τ] {s s' : LockState τ} {t : τ} {m : Mode}
    (hwait : ∀ m', (s.threads t).place.waiting = some m' → m' = m)
    (h : tryLock s t m = some s') : s' = s.attempt t m := by
  rw [tryLock] at h
  by_cases hout : (s.threads t).place = .outside
  · rw [if_pos hout, lockStep, if_pos hout] at h
    cases h
    rfl
  · rw [if_neg hout, lockStep] at h
    split at h
    · rename_i m' hm'
      cases h
      rw [hwait m' (by rw [hm']; rfl)]
    · cases h

/-- The only operation that returns the null pointer is a `get` of a key that is not there. -/
theorem CacheOp.access_nullptr (op : CacheOp) (map : CacheMap) (now : ℤ) :
    (op.access map now).2 = .nullptr ↔ ∃ key, op = .get key ∧ map key = none := by
  cases op with
  | get key =>
    rw [access]
    cases hmap : map key with
    | none => exact ⟨fun _ => ⟨key, rfl, hmap⟩, fun _ => rfl⟩
    | some msg =>
      constructor
      · nofun
      · rintro ⟨key', h, hnone⟩
        cases h
        rw [hmap] at hnone
        cases hnone
  | hasKey key => exact ⟨nofun, fun ⟨_, h, _⟩ => nomatch h⟩
  | delete key => exact ⟨nofun, fun ⟨_, h, _⟩ => nomatch h⟩
  | create key point allPoint resultCode res => exact ⟨nofun, fun ⟨_, h, _⟩ => nomatch h⟩
  | checkExpire => exact ⟨nofun, fun ⟨_, h, _⟩ => nomatch h⟩

section
variable {pc : Pc} {th th' : Thread}

/-- A thread that stays where it is and keeps its locks. -/
theorem Consistent.same (h : Consistent pc th) (hwait : th'.place.waiting = th.place.waiting)
    (hreads : th'.reads = th.reads) (hwrites : th'.writes = th.writes) :
    Consistent pc th' ∧ (Leaking pc th' ↔ Leaking pc th) := by
  refine ⟨⟨?_, ?_, ?_, ?_⟩, ?_⟩
  · rw [hwait]
    exact h.waiting
  · rw [hwrites]
    exact h.writes
  · rw [hreads]
    exact h.reads
  · rw [hreads]
    exact h.missed
  · rw [Leaking, Leaking, hreads]

/-- Nobody waits at a place where no lock is taken. -/
theorem Consistent.not_waiting (h : Consistent pc th) (hwant : pc.want = none) :
    th.place.waiting = none := by
  cases hw : th.place.waiting with
  | none => rfl
  | some m =>
    have hsome := h.waiting m hw
    rw [hwant] at hsome
    cases hsome

/-- A thread starts an operation. -/
theorem Consistent.call {last : Option CacheRet} (h : Consistent (.idle last) th) (op : CacheOp) :
    Consistent (.entering op) th ∧ (Leaking (.entering op) th ↔ Leaking (.idle last) th) := by
  refine ⟨⟨?_, h.writes, h.reads, fun h => by cases h⟩, Iff.rfl⟩
  rw [h.not_waiting rfl]
  intro m hm
  cases hm

/-- The operation of a thread has its answer. -/
theorem Consistent.answer {op : CacheOp} (h : Consistent (.inside op) th) (ret : CacheRet) :
    Consistent (.leaving op ret) th ∧
      (Leaking (.leaving op ret) th ↔ Leaking (.inside op) th) := by
  refine ⟨⟨?_, h.writes, h.reads, fun h => by cases h⟩, Iff.rfl⟩
  rw [h.not_waiting rfl]
  intro m hm
  cases hm

/-- A thread that misses its key keeps a lock it will never give back. -/
theorem Consistent.miss {key : UInt64} (h : Consistent (.inside (.get key)) th) :
    Consistent .relocking th ∧ Leaking .relocking th := by
  have hw := h.writes
  have hr := h.reads
  simp only [Pc.owes, CacheOp.mode, reduceCtorEq, if_true, if_false] at hw hr
  refine ⟨⟨?_, hw, Nat.zero_le _, fun _ => hr⟩, hr⟩
  rw [h.not_waiting rfl]
  intro m hm
  cases hm

/-- A thread gets the lock its operation needs. -/
theorem Consistent.lock {op : CacheOp} (h : Consistent (.entering op) th) :
    Consistent (.inside op) (th.take op.mode) ∧
      (Leaking (.inside op) (th.take op.mode) ↔ Leaking (.entering op) th) := by
  have hw := h.writes
  have hr := h.reads
  simp only [Pc.owes] at hw hr
  cases hmode : op.mode <;>
    refine ⟨⟨nofun, ?_, ?_, nofun⟩, ?_⟩ <;>
    simp only [Pc.owes, hmode, Thread.take, Leaking, reduceCtorEq, if_true, if_false] <;> omega

/-- A thread gives the lock of its operation back. -/
theorem Consistent.unlock {op : CacheOp} {ret : CacheRet} (h : Consistent (.leaving op ret) th) :
    Consistent (.idle (some ret)) (th.drop op.mode) ∧
      (Leaking (.idle (some ret)) (th.drop op.mode) ↔ Leaking (.leaving op ret) th) := by
  have hwait := h.not_waiting rfl
  have hw := h.writes
  have hr := h.reads
  cases hmode : op.mode <;>
    simp only [Pc.owes, hmode, reduceCtorEq, if_true, if_false] at hw hr <;>
    refine ⟨⟨?_, ?_, ?_, nofun⟩, ?_⟩ <;>
    simp only [Pc.owes, hmode, Thread.drop, Leaking, reduceCtorEq, if_true, if_false, hwait,
      IsEmpty.forall_iff, implies_true] <;> omega

/-- A thread locks again after a miss: it held a lock too many before, and does so after. -/
theorem Consistent.relock (h : Consistent .relocking th) (last : Option CacheRet) :
    Consistent (.idle last) (th.take .read) ∧
      (Leaking (.idle last) (th.take .read) ↔ Leaking .relocking th) := by
  have hw := h.writes
  have hmissed := h.missed rfl
  refine ⟨⟨nofun, hw, Nat.zero_le _, nofun⟩, ?_⟩
  simp only [Leaking, Pc.owes, Thread.take]
  omega

end

/-! ### Steps -/

section
variable {τ : Type*} {s s' : CacheState τ}

/-- Every thread is consistent. -/
def CacheState.Consistent (s : CacheState τ) : Prop :=
  ∀ t, Mediator.Consistent (s.pc t) (s.locks.threads t)

/-- A thread holds a lock that it will never give back. -/
def CacheState.LeakingAt (s : CacheState τ) (t : τ) : Prop :=
  Leaking (s.pc t) (s.locks.threads t)

/-- What a step has to do for a thread: it stays consistent, and it leaks if it leaked before or
has just missed a key. -/
def Follows (s s' : CacheState τ) (a : CacheAction τ) (u : τ) : Prop :=
  Mediator.Consistent (s'.pc u) (s'.locks.threads u) ∧
    (s'.LeakingAt u ↔ s.LeakingAt u ∨ MissBy s a u)

/-- A step without a miss of this thread. -/
theorem follows_of_not_miss {a : CacheAction τ} {u : τ} (hmiss : ¬ MissBy s a u)
    (h : Mediator.Consistent (s'.pc u) (s'.locks.threads u) ∧
      (s'.LeakingAt u ↔ s.LeakingAt u)) : Follows s s' a u :=
  ⟨h.1, by rw [h.2, or_iff_left hmiss]⟩

theorem not_missBy {a : CacheAction τ} {u : τ} (h : ∀ now, a ≠ .body u now) : ¬ MissBy s a u :=
  fun ⟨now, _, ha, _⟩ => h now ha

variable [DecidableEq τ]

/-- The effect of a step, case by case. -/
inductive CacheEffect (s : CacheState τ) : CacheAction τ → CacheState τ → Prop
  | call (t : τ) (op : CacheOp) (last : Option CacheRet) (hpc : s.pc t = .idle last) :
      CacheEffect s (.call t op) { s with pc := update s.pc t (.entering op) }
  | enter (t : τ) (op : CacheOp) (locks : LockState τ) (hpc : s.pc t = .entering op)
      (hlock : tryLock s.locks t op.mode = some locks) :
      CacheEffect s (.enter t) (s.entered t (.inside op) locks)
  | relock (t : τ) (locks : LockState τ) (hpc : s.pc t = .relocking)
      (hlock : tryLock s.locks t .read = some locks) :
      CacheEffect s (.enter t) (s.entered t (.idle (some .nullptr)) locks)
  | body (t : τ) (now : ℤ) (op : CacheOp) (hpc : s.pc t = .inside op) :
      CacheEffect s (.body t now) { s with
        map := (op.access s.map now).1
        pc := update s.pc t (if (op.access s.map now).2 = .nullptr then .relocking
          else .leaving op (op.access s.map now).2) }
  | unlock (t : τ) (op : CacheOp) (ret : CacheRet) (locks : LockState τ)
      (hpc : s.pc t = .leaving op ret)
      (hlock : lockStep s.locks (.unlock t op.mode) = some locks) :
      CacheEffect s (.unlock t) { s with locks, pc := update s.pc t (.idle (some ret)) }
  | spurious (t : τ) (locks : LockState τ)
      (hlock : lockStep s.locks (.spurious t) = some locks) :
      CacheEffect s (.spurious t) { s with locks }

theorem cacheEffect_of_step {a : CacheAction τ} (h : cacheStep s a = some s') :
    CacheEffect s a s' := by
  cases a with
  | call t op =>
    rw [cacheStep] at h
    split at h
    · rename_i last hpc
      cases h
      exact .call t op last hpc
    · cases h
  | enter t =>
    rw [cacheStep] at h
    split at h
    · rename_i op hpc
      obtain ⟨locks, hlock, rfl⟩ := Option.map_eq_some_iff.mp h
      exact .enter t op locks hpc hlock
    · rename_i hpc
      obtain ⟨locks, hlock, rfl⟩ := Option.map_eq_some_iff.mp h
      exact .relock t locks hpc hlock
    · cases h
  | body t now =>
    rw [cacheStep] at h
    split at h
    · rename_i op hpc
      cases h
      exact .body t now op hpc
    · cases h
  | unlock t =>
    rw [cacheStep] at h
    split at h
    · rename_i op ret hpc
      obtain ⟨locks, hlock, rfl⟩ := Option.map_eq_some_iff.mp h
      exact .unlock t op ret locks hpc hlock
    · cases h
  | spurious t =>
    rw [cacheStep] at h
    obtain ⟨locks, hlock, rfl⟩ := Option.map_eq_some_iff.mp h
    exact .spurious t locks hlock

/-- A thread tries to lock and goes on to `next`. -/
theorem follows_enter (hs : s.Consistent) (t : τ) (m : Mode) (next : Pc)
    (hwant : (s.pc t).want = some m)
    (hnext : Mediator.Consistent next ((s.locks.threads t).take m) ∧
      (Leaking next ((s.locks.threads t).take m) ↔ s.LeakingAt t))
    {locks : LockState τ} (hlock : tryLock s.locks t m = some locks) (u : τ) :
    Follows s (s.entered t next locks) (.enter t) u := by
  have hlocks := tryLock_eq (fun m' hm' => by
    have hsome := (hs t).waiting m' hm'
    rw [hwant] at hsome
    exact (Option.some.inj hsome).symm) hlock
  subst hlocks
  refine follows_of_not_miss (not_missBy fun _ h => nomatch h) ?_
  by_cases hu : u = t
  · subst hu
    simp only [CacheState.entered, CacheState.LeakingAt]
    rcases s.locks.attempt_self u m with hself | hself
    · -- the thread fell asleep
      rw [hself, if_neg (by nofun)]
      have hc := hs u
      refine ⟨⟨?_, hc.writes, hc.reads, hc.missed⟩, Iff.rfl⟩
      intro m' hm'
      cases hm'
      exact hwant
    · have hout : ((s.locks.threads u).take m).place = .outside := by cases m <;> rfl
      rw [hself, if_pos hout, update_self]
      exact hnext
  · have hpc : (s.entered t next (s.locks.attempt t m)).pc u = s.pc u := by
      simp only [CacheState.entered]
      split
      · exact update_of_ne hu _ _
      · rfl
    simp only [CacheState.LeakingAt, hpc]
    show Mediator.Consistent (s.pc u) ((s.locks.attempt t m).threads u) ∧
      (Leaking (s.pc u) ((s.locks.attempt t m).threads u) ↔ _)
    rw [s.locks.attempt_other t m hu]
    exact ⟨hs u, Iff.rfl⟩

/-- A thread goes on and no lock changes. -/
theorem follows_moved {a : CacheAction τ} {u : τ} (hs : s.Consistent) (hmiss : ¬ MissBy s a u)
    (t : τ) (map : CacheMap) {next : Pc}
    (hnext : Mediator.Consistent next (s.locks.threads t) ∧
      (Leaking next (s.locks.threads t) ↔ s.LeakingAt t)) :
    Follows s { s with map, pc := update s.pc t next } a u := by
  refine follows_of_not_miss hmiss ?_
  by_cases hu : u = t
  · subst hu
    simp only [CacheState.LeakingAt, update_self]
    exact hnext
  · simp only [CacheState.LeakingAt, update_of_ne hu]
    exact ⟨hs u, trivial⟩

/-- The body of an operation: only a miss makes its thread leak. -/
theorem follows_body (hs : s.Consistent) {t : τ} {op : CacheOp} (hpc : s.pc t = .inside op)
    (now : ℤ) (u : τ) :
    Follows s { s with
      map := (op.access s.map now).1
      pc := update s.pc t (if (op.access s.map now).2 = .nullptr then .relocking
        else .leaving op (op.access s.map now).2) } (.body t now) u := by
  have hc := hs t
  rw [hpc] at hc
  by_cases hnull : (op.access s.map now).2 = .nullptr
  · obtain ⟨key, rfl, hmap⟩ := (op.access_nullptr s.map now).mp hnull
    obtain ⟨hcons, hleak⟩ := hc.miss
    rw [if_pos hnull]
    by_cases hu : u = t
    · subst hu
      simp only [Follows, CacheState.LeakingAt, update_self]
      exact ⟨hcons, iff_of_true hleak (.inr ⟨now, key, rfl, hpc, hmap⟩)⟩
    · have hother : ¬ MissBy s (.body t now) u := by
        rintro ⟨now', key', ha, -⟩
        cases ha
        exact hu rfl
      refine follows_of_not_miss hother ?_
      simp only [CacheState.LeakingAt, update_of_ne hu]
      exact ⟨hs u, trivial⟩
  · have hmiss : ¬ MissBy s (.body t now) u := by
      rintro ⟨now', key, ha, hpc', hmap⟩
      cases ha
      rw [hpc] at hpc'
      cases hpc'
      exact hnull ((CacheOp.access_nullptr _ s.map now).mpr ⟨key, rfl, hmap⟩)
    rw [if_neg hnull]
    refine follows_moved hs hmiss t _ ?_
    rw [CacheState.LeakingAt, hpc]
    exact hc.answer _

/-- An operation gives its lock back, and may wake the others. -/
theorem follows_unlock (hs : s.Consistent) {t : τ} {op : CacheOp} {ret : CacheRet}
    (hpc : s.pc t = .leaving op ret) (u : τ) :
    Follows s { s with
      locks := s.locks.release t op.mode
      pc := update s.pc t (.idle (some ret)) } (.unlock t) u := by
  refine follows_of_not_miss (not_missBy (by simp)) ?_
  by_cases hu : u = t
  · subst hu
    have hc := hs u
    rw [hpc] at hc
    obtain ⟨hcons, hleak⟩ := hc.unlock
    simp only [CacheState.LeakingAt, update_self, hpc]
    rcases s.locks.release_self u op.mode with hself | hself
    · rw [hself]
      exact ⟨hcons, hleak⟩
    · rw [hself, ← hleak]
      exact hcons.same (Thread.wake_waiting _) (Thread.wake_reads _) (Thread.wake_writes _)
  · simp only [CacheState.LeakingAt, update_of_ne hu]
    rcases s.locks.release_other t op.mode hu with hother | hother
    · rw [hother]
      exact ⟨hs u, Iff.rfl⟩
    · rw [hother]
      exact (hs u).same (Thread.wake_waiting _) (Thread.wake_reads _) (Thread.wake_writes _)

/-- A thread wakes up without a notification. -/
theorem follows_spurious (hs : s.Consistent) (t : τ) {locks : LockState τ}
    (hlock : lockStep s.locks (.spurious t) = some locks) (u : τ) :
    Follows s { s with locks } (.spurious t) u := by
  rw [lockStep] at hlock
  split at hlock
  swap
  · cases hlock
  rename_i m hplace
  cases hlock
  refine follows_of_not_miss (not_missBy (by simp)) ?_
  by_cases hu : u = t
  · subst hu
    simp only [CacheState.LeakingAt, update_self]
    exact (hs u).same (by rw [hplace]; rfl) rfl rfl
  · simp only [CacheState.LeakingAt, update_of_ne hu]
    exact ⟨hs u, trivial⟩

/-- **One step**, for every thread. -/
theorem follows_step {a : CacheAction τ} (hs : s.Consistent) (h : cacheStep s a = some s')
    (u : τ) : Follows s s' a u := by
  cases cacheEffect_of_step h with
  | call t op last hpc =>
    have hc := hs t
    rw [hpc] at hc
    refine follows_moved hs (not_missBy (by simp)) t s.map ?_
    rw [CacheState.LeakingAt, hpc]
    exact hc.call op
  | enter t op locks hpc hlock =>
    have hc := hs t
    rw [hpc] at hc
    refine follows_enter hs t op.mode _ (by rw [hpc]; rfl) ?_ hlock u
    rw [CacheState.LeakingAt, hpc]
    exact hc.lock
  | relock t locks hpc hlock =>
    have hc := hs t
    rw [hpc] at hc
    refine follows_enter hs t .read _ (by rw [hpc]; rfl) ?_ hlock u
    rw [CacheState.LeakingAt, hpc]
    exact hc.relock _
  | body t now op hpc => exact follows_body hs hpc now u
  | unlock t op ret locks hpc hlock =>
    rw [lockStep, Option.ite_none_right_eq_some] at hlock
    obtain ⟨-, hlock⟩ := hlock
    cases hlock
    exact follows_unlock hs hpc u
  | spurious t locks hlock => exact follows_spurious hs t hlock u

theorem tryLock_safe [Fintype τ] {t : τ} {m : Mode} {locks : LockState τ} (hs : s.locks.Safe)
    (h : tryLock s.locks t m = some locks) : locks.Safe := by
  rw [tryLock] at h
  split at h
  · exact safe_step hs h
  · exact safe_step hs h

/-- The lock's part of a step of the cache. -/
theorem locks_safe [Fintype τ] {a : CacheAction τ} (hs : s.locks.Safe)
    (h : cacheStep s a = some s') : s'.locks.Safe := by
  cases cacheEffect_of_step h with
  | call => exact hs
  | enter t op locks hpc hlock => exact tryLock_safe hs hlock
  | relock t locks hpc hlock => exact tryLock_safe hs hlock
  | body => exact hs
  | unlock t op ret locks hpc hlock => exact safe_step hs hlock
  | spurious t locks hlock => exact safe_step hs hlock

/-! ### Runs -/

/-- The invariant of the cache. -/
structure CacheInv [Fintype τ] (s : CacheState τ) : Prop where
  consistent : s.Consistent
  safe : s.locks.Safe

theorem cacheInv_start [Fintype τ] : CacheInv (judgeCache τ).start where
  consistent _ := ⟨nofun, rfl, Nat.zero_le _, nofun⟩
  safe := safe_start

/-- A run keeps the invariant, and in the end some thread leaks if one did at the start or some
step of the run was a miss. -/
theorem run_leaks [Fintype τ] (as : List (CacheAction τ)) : ∀ {s s' : CacheState τ}, CacheInv s →
    (judgeCache τ).run s as = some s' → CacheInv s' ∧
      ((∀ t, ¬ s'.LeakingAt t) ↔
        (∀ t, ¬ s.LeakingAt t) ∧ (judgeCache τ).Meets NoMiss s as) := by
  induction as with
  | nil =>
    intro s s' hs h
    cases h
    exact ⟨hs, ⟨fun h => ⟨h, trivial⟩, fun h => h.1⟩⟩
  | cons a as ih =>
    intro s s' hs h
    obtain ⟨s₁, hstep, h⟩ := Option.bind_eq_some_iff.mp h
    have hfollows := fun u => follows_step hs.consistent hstep u
    have hs₁ : CacheInv s₁ := ⟨fun u => (hfollows u).1, locks_safe hs.safe hstep⟩
    obtain ⟨hs', hleak⟩ := ih hs₁ h
    refine ⟨hs', ?_⟩
    have hmiss : (∀ u, ¬ MissBy s a u) ↔ NoMiss s a :=
      ⟨fun h u now key ha hpc hmap => h u ⟨now, key, ha, hpc, hmap⟩,
        fun h u ⟨now, key, ha, hpc, hmap⟩ => h u now key ha hpc hmap⟩
    have hone : (∀ u, ¬ s₁.LeakingAt u) ↔ (∀ u, ¬ s.LeakingAt u) ∧ NoMiss s a := by
      rw [← hmiss]
      constructor
      · exact fun h => ⟨fun u hu => h u ((hfollows u).2.mpr (.inl hu)),
          fun u hu => h u ((hfollows u).2.mpr (.inr hu))⟩
      · exact fun h u hu => ((hfollows u).2.mp hu).elim (h.1 u) (h.2 u)
    rw [hleak, hone, and_assoc]
    have hmeets : (judgeCache τ).Meets NoMiss s (a :: as) ↔
        NoMiss s a ∧ (judgeCache τ).Meets NoMiss s₁ as := by
      constructor
      · exact fun h => ⟨h.1, h.2 s₁ hstep⟩
      · refine fun h => ⟨h.1, fun s₂ hs₂ => ?_⟩
        have heq : s₁ = s₂ := Option.some.inj (hstep.symm.trans hs₂)
        exact heq ▸ h.2
    rw [hmeets]

omit [DecidableEq τ] in
/-- When no operation is in progress, the lock is free exactly if no thread leaks. -/
theorem released_iff [Fintype τ] (hs : CacheInv s) (hquiet : s.Quiet) :
    s.locks.lock.Released ↔ ∀ t, ¬ s.LeakingAt t := by
  have howes : ∀ t m, (s.pc t).owes m = 0 := by
    intro t m
    obtain ⟨last, hpc⟩ := hquiet t
    rw [hpc]
    rfl
  have hreads := hs.safe.readers
  have hwrites : s.locks.lock.writeCnt = 0 := by
    rw [hs.safe.writers, Finset.sum_eq_zero_iff.mpr]
    · rfl
    · intro t _
      rw [(hs.consistent t).writes, howes]
  have hleak : (∀ t, ¬ s.LeakingAt t) ↔ ∑ t, (s.locks.threads t).reads = 0 := by
    rw [Finset.sum_eq_zero_iff]
    apply forall_congr'
    intro t
    rw [forall_prop_of_true (Finset.mem_univ t), CacheState.LeakingAt, Leaking, howes]
    omega
  rw [hleak]
  constructor
  · intro h
    have hzero := h.1
    omega
  · intro h
    have hzero : s.locks.lock.readCnt = 0 := by omega
    refine ⟨hzero, hwrites, ?_⟩
    rw [RWLock.lockWrite, if_neg (by omega)]
    intro h
    cases h

/-- **A miss poisons the lock, and nothing else does.**  After any interleaving of any operations,
once none is in progress, the counters are zero and a writer gets the lock if and only if no `get`
looked for a key that was not in the map. -/
theorem counters_zero_iff [Fintype τ] (as : List (CacheAction τ)) {s : CacheState τ}
    (hrun : (judgeCache τ).run (judgeCache τ).start as = some s) (hquiet : s.Quiet) :
    s.locks.lock.Released ↔ (judgeCache τ).Meets NoMiss (judgeCache τ).start as := by
  obtain ⟨hs, hleak⟩ := run_leaks as cacheInv_start hrun
  rw [released_iff hs hquiet, hleak]
  refine and_iff_right fun t h => ?_
  exact absurd h (Nat.lt_irrefl 0)

end

/-- One thread stores a result and another reads it. -/
def hitRun : List (CacheAction (Fin 2)) :=
  [.call 0 (.create 7 0 1 0 []), .enter 0, .body 0 0, .unlock 0,
    .call 1 (.get 7), .enter 1, .body 1 0, .unlock 1]

/-- The body of the `get` is the one step that looks for a key, and finds it. -/
theorem hitRun_noMiss :
    (judgeCache (Fin 2)).Meets NoMiss (judgeCache (Fin 2)).start hitRun := by
  refine ⟨nofun, fun s₁ h₁ => ⟨nofun, fun s₂ h₂ => ⟨?_, fun s₃ h₃ => ⟨nofun, fun s₄ h₄ =>
    ⟨nofun, fun s₅ h₅ => ⟨nofun, fun s₆ h₆ => ⟨?_, fun _ _ => ⟨nofun, fun _ _ => trivial⟩⟩⟩⟩⟩⟩⟩⟩
  · cases h₁
    cases h₂
    intro t now key ha hpc
    cases ha
    cases hpc
  · cases h₁
    cases h₂
    cases h₃
    cases h₄
    cases h₅
    cases h₆
    intro t now key ha hpc
    cases ha
    cases hpc
    decide

theorem counters_zero_hit : ∃ s,
    (judgeCache (Fin 2)).run (judgeCache (Fin 2)).start hitRun = some s ∧
    s.pc 1 = .idle (some (.value ⟨fiveMinutes, 0, 1, 0, []⟩)) ∧ s.locks.lock.Released := by
  refine ⟨_, rfl, rfl, (counters_zero_iff hitRun rfl fun t => ?_).mpr hitRun_noMiss⟩
  match t with
  | 0 => exact ⟨_, rfl⟩
  | 1 => exact ⟨_, rfl⟩

/-- **A single miss**: one thread asks for a result that is not there, and the lock stays read
locked twice. -/
theorem counters_after_miss : ∃ s, (judgeCache (Fin 1)).run (judgeCache (Fin 1)).start
    [.call 0 (.get 7), .enter 0, .body 0 0, .enter 0] = some s ∧ s.Quiet ∧
    s.locks.lock = ⟨2, 0⟩ ∧ s.locks.lock.lockWrite = none := by
  refine ⟨_, rfl, fun t => ?_, by decide, by decide⟩
  match t with
  | 0 => exact ⟨_, rfl⟩

end Rojcpp.Mediator
