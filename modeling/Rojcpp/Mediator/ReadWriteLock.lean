import Rojcpp.Lib.System
import Rojcpp.Lib.Threads

/-!
# The readers-writer lock

`RWLock` keeps two counters under a mutex and one condition variable.  A call that may not go on
sleeps in `cv.wait`; a notification, or a spurious wakeup, makes it take the mutex and test its
condition again.  Each stretch of code under the mutex is one step.

The counters are `int`s and stand here as integers.  They count locks that are held, which are no
more than the threads as long as every lock is given back.  A caller that keeps read locks, as
`judgeCache::get` does on a miss, makes `read_cnt` grow by two with each call; that it would leave
the range of `int` after `2 ^ 30` of them is not modelled.

`rwLock_safe` is about any number of threads, each of which unlocks only what it holds.
-/

namespace Rojcpp.Mediator

open Rojcpp.Lib Function

/-! ### The critical sections -/

/-- The members of `RWLock`. -/
structure RWLock where
  readCnt : ℤ
  writeCnt : ℤ
  deriving DecidableEq, Repr

/-- The constructor. -/
def RWLock.init : RWLock := ⟨0, 0⟩

/-- What a lock is taken for. -/
inductive Mode where
  | read
  | write
  deriving DecidableEq, Repr

/-- `lock_read` once it has the mutex; `none` is `cv.wait`. -/
def RWLock.lockRead (l : RWLock) : Option RWLock :=
  if 0 < l.writeCnt then none else some { l with readCnt := l.readCnt + 1 }

/-- `unlock_read`, with whether it notifies. -/
def RWLock.unlockRead (l : RWLock) : RWLock × Bool :=
  ({ l with readCnt := l.readCnt - 1 }, l.readCnt - 1 == 0)

/-- `lock_write` once it has the mutex; `none` is `cv.wait`. -/
def RWLock.lockWrite (l : RWLock) : Option RWLock :=
  if 0 < l.writeCnt ∨ 0 < l.readCnt then none else some { l with writeCnt := l.writeCnt + 1 }

/-- `unlock_write`, with whether it notifies. -/
def RWLock.unlockWrite (l : RWLock) : RWLock × Bool :=
  ({ l with writeCnt := l.writeCnt - 1 }, true)

/-- Locking in either mode. -/
def RWLock.lock (l : RWLock) : Mode → Option RWLock
  | .read => l.lockRead
  | .write => l.lockWrite

/-- Unlocking in either mode. -/
def RWLock.unlock (l : RWLock) : Mode → RWLock × Bool
  | .read => l.unlockRead
  | .write => l.unlockWrite

/-! ### Threads -/

/-- Where a thread is: outside the lock's code, asleep in `cv.wait`, or woken and about to take
the mutex again. -/
inductive Place where
  | outside
  | asleep (m : Mode)
  | woken (m : Mode)
  deriving DecidableEq, Repr

/-- A thread, with the numbers of read and of write locks it holds. -/
structure Thread where
  place : Place
  reads : ℕ
  writes : ℕ
  deriving DecidableEq, Repr

/-- How many locks of a mode a thread holds. -/
def Thread.held (th : Thread) : Mode → ℕ
  | .read => th.reads
  | .write => th.writes

/-- One more lock. -/
def Thread.take (th : Thread) : Mode → Thread
  | .read => { th with place := .outside, reads := th.reads + 1 }
  | .write => { th with place := .outside, writes := th.writes + 1 }

/-- One lock less. -/
def Thread.drop (th : Thread) : Mode → Thread
  | .read => { th with reads := th.reads - 1 }
  | .write => { th with writes := th.writes - 1 }

/-- A sleeper is woken. -/
def Thread.wake (th : Thread) : Thread :=
  match th.place with
  | .asleep m => { th with place := .woken m }
  | _ => th

/-- The mode a thread inside the lock's code waits for. -/
def Place.waiting : Place → Option Mode
  | .outside => none
  | .asleep m => some m
  | .woken m => some m

/-- A lock and the threads that use it. -/
structure LockState (τ : Type*) where
  lock : RWLock
  threads : τ → Thread

/-- The steps: a call takes the mutex for the first time, a woken thread takes it again, a thread
unlocks, a sleeper wakes up without a notification. -/
inductive LockAction (τ : Type*) where
  | lock (t : τ) (m : Mode)
  | retry (t : τ)
  | unlock (t : τ) (m : Mode)
  | spurious (t : τ)
  deriving DecidableEq, Repr

section
variable {τ : Type*} [DecidableEq τ]

/-- A thread has the mutex and tests its condition. -/
def LockState.attempt (s : LockState τ) (t : τ) (m : Mode) : LockState τ :=
  match s.lock.lock m with
  | none => { s with threads := update s.threads t { s.threads t with place := .asleep m } }
  | some l => ⟨l, update s.threads t ((s.threads t).take m)⟩

/-- A thread unlocks, and wakes all sleepers if the source notifies. -/
def LockState.release (s : LockState τ) (t : τ) (m : Mode) : LockState τ :=
  let r := s.lock.unlock m
  let threads := update s.threads t ((s.threads t).drop m)
  ⟨r.1, if r.2 then fun u => (threads u).wake else threads⟩

/-- One step. -/
def lockStep (s : LockState τ) : LockAction τ → Option (LockState τ)
  | .lock t m => if (s.threads t).place = .outside then some (s.attempt t m) else none
  | .retry t =>
    match (s.threads t).place with
    | .woken m => some (s.attempt t m)
    | _ => none
  | .unlock t m =>
    if (s.threads t).place = .outside ∧ 0 < (s.threads t).held m then some (s.release t m)
    else none
  | .spurious t =>
    match (s.threads t).place with
    | .asleep m =>
      some { s with threads := update s.threads t { s.threads t with place := .woken m } }
    | _ => none

/-- The lock with no holders. -/
def rwLock (τ : Type*) [DecidableEq τ] : System (LockState τ) (LockAction τ) :=
  ⟨⟨RWLock.init, fun _ => ⟨.outside, 0, 0⟩⟩, lockStep⟩

end

/-! ### What the lock guarantees -/

/-- A mode can be locked now. -/
def RWLock.Free (l : RWLock) : Mode → Prop
  | .read => l.writeCnt ≤ 0
  | .write => l.writeCnt ≤ 0 ∧ l.readCnt ≤ 0

theorem RWLock.lock_eq_none (l : RWLock) (m : Mode) : l.lock m = none ↔ ¬ l.Free m := by
  cases m <;> simp [lock, lockRead, lockWrite, Free]

/-- Locking makes no mode free. -/
theorem RWLock.free_of_lock {l l' : RWLock} {m : Mode} (h : l.lock m = some l') (m' : Mode)
    (hfree : l'.Free m') : l.Free m' := by
  cases m with
  | read =>
    rw [lock, lockRead, Option.ite_none_left_eq_some] at h
    obtain ⟨-, h⟩ := h
    cases h
    cases m' with
    | read => exact hfree
    | write =>
      simp only [Free] at hfree ⊢
      omega
  | write =>
    rw [lock, lockWrite, Option.ite_none_left_eq_some] at h
    obtain ⟨-, h⟩ := h
    cases h
    cases m' <;> (simp only [Free] at hfree ⊢; omega)

/-- Unlocking without a notification makes no mode free. -/
theorem RWLock.free_of_unlock {l : RWLock} {m : Mode} (hpos : m = .read → 0 < l.readCnt)
    (h : ¬ (l.unlock m).2 = true) (m' : Mode) (hfree : (l.unlock m).1.Free m') : l.Free m' := by
  cases m with
  | read =>
    have hlast : ¬ l.readCnt - 1 = 0 := by simpa [unlock, unlockRead] using h
    have hread := hpos rfl
    cases m' with
    | read => exact hfree
    | write =>
      simp only [unlock, unlockRead, Free] at hfree ⊢
      omega
  | write => exact absurd rfl h

@[simp] theorem Thread.wake_reads (th : Thread) : th.wake.reads = th.reads := by
  rw [wake]
  split <;> rfl

@[simp] theorem Thread.wake_writes (th : Thread) : th.wake.writes = th.writes := by
  rw [wake]
  split <;> rfl

/-- After a notification no thread sleeps. -/
theorem Thread.wake_place (th : Thread) (m : Mode) : th.wake.place ≠ .asleep m := by
  rw [wake]
  split
  · nofun
  · rename_i h
    exact h m

@[simp] theorem Thread.wake_waiting (th : Thread) : th.wake.place.waiting = th.place.waiting := by
  rw [wake]
  split
  · rename_i h
    rw [h]
    rfl
  · rfl

/-! ### What a step does to one thread -/

section
variable {τ : Type*} [DecidableEq τ] (s : LockState τ) (t : τ) (m : Mode)

theorem LockState.attempt_other {u : τ} (h : u ≠ t) :
    (s.attempt t m).threads u = s.threads u := by
  rw [attempt]
  split <;> exact update_of_ne h _ _

/-- The thread falls asleep, or it holds one more lock. -/
theorem LockState.attempt_self :
    (s.attempt t m).threads t = { s.threads t with place := .asleep m } ∨
      (s.attempt t m).threads t = (s.threads t).take m := by
  rw [attempt]
  split
  · exact .inl (update_self _ _ _)
  · exact .inr (update_self _ _ _)

theorem LockState.release_other {u : τ} (h : u ≠ t) :
    (s.release t m).threads u = s.threads u ∨ (s.release t m).threads u = (s.threads u).wake := by
  rw [release]
  by_cases hnotify : (s.lock.unlock m).2 = true
  · right
    simp only [hnotify, if_true, update_of_ne h]
  · left
    simp only [hnotify, Bool.false_eq_true, if_false, update_of_ne h]

theorem LockState.release_self : (s.release t m).threads t = (s.threads t).drop m ∨
    (s.release t m).threads t = ((s.threads t).drop m).wake := by
  rw [release]
  by_cases hnotify : (s.lock.unlock m).2 = true
  · right
    simp only [hnotify, if_true, update_self]
  · left
    simp only [hnotify, Bool.false_eq_true, if_false, update_self]

end

section
variable {τ : Type*} [Fintype τ]

/-- The counters are the numbers of locks held, a writer is alone, and whoever sleeps waits for a
condition that does not hold. -/
structure LockState.Safe (s : LockState τ) : Prop where
  readers : s.lock.readCnt = ∑ t, (s.threads t).reads
  writers : s.lock.writeCnt = ∑ t, (s.threads t).writes
  oneWriter : ∑ t, (s.threads t).writes ≤ 1
  alone : 0 < ∑ t, (s.threads t).writes → ∑ t, (s.threads t).reads = 0
  asleep : ∀ t m, (s.threads t).place = .asleep m → ¬ s.lock.Free m

variable [DecidableEq τ]

theorem safe_start : (rwLock τ).start.Safe where
  readers := by simp [rwLock, RWLock.init]
  writers := by simp [rwLock, RWLock.init]
  oneWriter := by simp [rwLock]
  alone := by simp [rwLock]
  asleep t m h := by cases h

/-- A thread that keeps its locks and does not fall asleep keeps the lock safe. -/
theorem LockState.Safe.move {s : LockState τ} (hs : s.Safe) (t : τ) (p : Place)
    (hp : ∀ m, p = .asleep m → ¬ s.lock.Free m) :
    LockState.Safe { s with threads := update s.threads t { s.threads t with place := p } } := by
  have hreads := sum_update Thread.reads s.threads t { s.threads t with place := p }
  have hwrites := sum_update Thread.writes s.threads t { s.threads t with place := p }
  rw [Nat.add_right_cancel_iff] at hreads hwrites
  refine ⟨?_, ?_, ?_, ?_, ?_⟩
  · simp only [hreads, hs.readers]
  · simp only [hwrites, hs.writers]
  · simp only [hwrites, hs.oneWriter]
  · simp only [hreads, hwrites]
    exact hs.alone
  · intro u m hu
    by_cases h : u = t
    · subst h
      simp only [update_self] at hu
      exact hp m hu
    · simp only [update_of_ne h] at hu
      exact hs.asleep u m hu

/-- **A thread that tests its condition** takes the lock or falls asleep. -/
theorem LockState.Safe.attempt {s : LockState τ} (hs : s.Safe) (t : τ) (m : Mode) :
    (s.attempt t m).Safe := by
  rw [LockState.attempt]
  cases hlock : s.lock.lock m with
  | none =>
    apply hs.move
    rintro m' h
    cases h
    exact (s.lock.lock_eq_none m).mp hlock
  | some l =>
    have hreads := sum_update Thread.reads s.threads t ((s.threads t).take m)
    have hwrites := sum_update Thread.writes s.threads t ((s.threads t).take m)
    have hr := hs.readers
    have hw := hs.writers
    have hone := hs.oneWriter
    have halone := hs.alone
    have hasleep : ∀ u m', (update s.threads t ((s.threads t).take m) u).place = .asleep m' →
        ¬ l.Free m' := by
      intro u m' hu hfree
      by_cases h : u = t
      · subst h
        rw [update_self] at hu
        cases m <;> cases hu
      · rw [update_of_ne h] at hu
        exact hs.asleep u m' hu (RWLock.free_of_lock hlock m' hfree)
    cases m with
    | read =>
      rw [RWLock.lock, RWLock.lockRead, Option.ite_none_left_eq_some] at hlock
      obtain ⟨hfree, hl⟩ := hlock
      cases hl
      simp only [Thread.take] at hreads hwrites
      refine ⟨?_, ?_, ?_, ?_, hasleep⟩ <;> simp only [Thread.take] <;> omega
    | write =>
      rw [RWLock.lock, RWLock.lockWrite, Option.ite_none_left_eq_some] at hlock
      obtain ⟨hfree, hl⟩ := hlock
      cases hl
      simp only [Thread.take] at hreads hwrites
      refine ⟨?_, ?_, ?_, ?_, hasleep⟩ <;> simp only [Thread.take] <;> omega

/-- The part of safety that does not depend on who sleeps. -/
structure LockState.Counted (s : LockState τ) : Prop where
  readers : s.lock.readCnt = ∑ t, (s.threads t).reads
  writers : s.lock.writeCnt = ∑ t, (s.threads t).writes
  oneWriter : ∑ t, (s.threads t).writes ≤ 1
  alone : 0 < ∑ t, (s.threads t).writes → ∑ t, (s.threads t).reads = 0

omit [DecidableEq τ] in
/-- When everybody is woken, nobody sleeps. -/
theorem LockState.Counted.wake {l : RWLock} {threads : τ → Thread}
    (h : LockState.Counted ⟨l, threads⟩) : LockState.Safe ⟨l, fun u => (threads u).wake⟩ := by
  refine ⟨?_, ?_, ?_, ?_, fun u m hu => absurd hu (Thread.wake_place _ m)⟩
  · simp only [Thread.wake_reads]
    exact h.readers
  · simp only [Thread.wake_writes]
    exact h.writers
  · simp only [Thread.wake_writes]
    exact h.oneWriter
  · simp only [Thread.wake_reads, Thread.wake_writes]
    exact h.alone

/-- The counters follow a thread that gives a lock back. -/
theorem LockState.Safe.dropped {s : LockState τ} (hs : s.Safe) (t : τ) (m : Mode)
    (hheld : 0 < (s.threads t).held m) : LockState.Counted
      ⟨(s.lock.unlock m).1, update s.threads t ((s.threads t).drop m)⟩ := by
  have hreads := sum_update Thread.reads s.threads t ((s.threads t).drop m)
  have hwrites := sum_update Thread.writes s.threads t ((s.threads t).drop m)
  have hr := hs.readers
  have hw := hs.writers
  have hone := hs.oneWriter
  have halone := hs.alone
  cases m with
  | read =>
    have hle := le_sum (fun u => (s.threads u).reads) t
    simp only [Thread.held] at hheld
    simp only [Thread.drop] at hreads hwrites
    refine ⟨?_, ?_, ?_, ?_⟩ <;>
      simp only [Thread.drop, RWLock.unlock, RWLock.unlockRead] <;> omega
  | write =>
    have hle := le_sum (fun u => (s.threads u).writes) t
    simp only [Thread.held] at hheld
    simp only [Thread.drop] at hreads hwrites
    refine ⟨?_, ?_, ?_, ?_⟩ <;>
      simp only [Thread.drop, RWLock.unlock, RWLock.unlockWrite] <;> omega

/-- **A thread that unlocks** wakes everybody, unless readers are left. -/
theorem LockState.Safe.release {s : LockState τ} (hs : s.Safe) (t : τ) (m : Mode)
    (hheld : 0 < (s.threads t).held m) : (s.release t m).Safe := by
  have hcounted := hs.dropped t m hheld
  have hpos : m = .read → 0 < s.lock.readCnt := by
    rintro rfl
    have hle := le_sum (fun u => (s.threads u).reads) t
    have hr := hs.readers
    simp only [Thread.held] at hheld
    omega
  rw [LockState.release]
  by_cases hnotify : (s.lock.unlock m).2 = true
  · simp only [hnotify, if_true]
    exact hcounted.wake
  · simp only [hnotify, Bool.false_eq_true, if_false]
    refine ⟨hcounted.readers, hcounted.writers, hcounted.oneWriter, hcounted.alone,
      fun u m' hu hfree => ?_⟩
    have hplace : (update s.threads t ((s.threads t).drop m) u).place = (s.threads u).place := by
      by_cases h : u = t
      · subst h
        rw [update_self]
        cases m <;> rfl
      · rw [update_of_ne h]
    rw [hplace] at hu
    exact hs.asleep u m' hu (RWLock.free_of_unlock hpos hnotify m' hfree)

theorem safe_step {s s' : LockState τ} {a : LockAction τ} (hs : s.Safe)
    (h : lockStep s a = some s') : s'.Safe := by
  cases a with
  | lock t m =>
    rw [lockStep, Option.ite_none_right_eq_some] at h
    obtain ⟨-, h⟩ := h
    cases h
    exact hs.attempt t m
  | retry t =>
    rw [lockStep] at h
    split at h
    · cases h
      exact hs.attempt t _
    · cases h
  | unlock t m =>
    rw [lockStep, Option.ite_none_right_eq_some] at h
    obtain ⟨⟨-, hheld⟩, h⟩ := h
    cases h
    exact hs.release t m hheld
  | spurious t =>
    rw [lockStep] at h
    split at h
    · cases h
      exact hs.move t _ (fun m h => nomatch h)
    · cases h

/-- Every reachable state of the lock is safe. -/
theorem safe_of_reachable {s : LockState τ} (hs : (rwLock τ).Reachable System.anyStep s) :
    s.Safe :=
  System.Reachable.invariant LockState.Safe safe_start (fun _ _ _ h _ hstep => safe_step h hstep) hs

/-- **The lock excludes, counts and wakes.**  In every reachable state at most one write lock is
held, no read lock is held beside it, the counters are the numbers of locks that are held, and
whoever sleeps without a notification waits for a condition that does not hold. -/
theorem rwLock_safe {s : LockState τ} (hs : (rwLock τ).Reachable System.anyStep s) :
    ∑ t, (s.threads t).writes ≤ 1 ∧
    (∀ t u, 0 < (s.threads t).writes → (s.threads u).reads = 0) ∧
    s.lock.readCnt = ∑ t, (s.threads t).reads ∧
    s.lock.writeCnt = ∑ t, (s.threads t).writes ∧
    (∀ t, (s.threads t).place = .asleep .read → 0 < s.lock.writeCnt) ∧
    (∀ t, (s.threads t).place = .asleep .write → 0 < s.lock.readCnt ∨ 0 < s.lock.writeCnt) := by
  have hsafe := safe_of_reachable hs
  refine ⟨hsafe.oneWriter, ?_, hsafe.readers, hsafe.writers, ?_, ?_⟩
  · intro t u ht
    have hle : (s.threads t).writes ≤ ∑ v, (s.threads v).writes :=
      le_sum (fun v => (s.threads v).writes) t
    exact Finset.sum_eq_zero_iff.mp (hsafe.alone (by omega)) u (Finset.mem_univ u)
  · intro t ht
    have hnot := hsafe.asleep t .read ht
    simp only [RWLock.Free] at hnot
    omega
  · intro t ht
    have hnot := hsafe.asleep t .write ht
    simp only [RWLock.Free] at hnot
    omega

end

/-- A reader holds the lock and a writer sleeps. -/
theorem rwLock_safe_waiting : ∃ s, (rwLock (Fin 2)).run (rwLock (Fin 2)).start
    [.lock 0 .read, .lock 1 .write] = some s ∧ (s.threads 1).place = .asleep .write ∧
    ∑ t, (s.threads t).writes ≤ 1 ∧
    (∀ t u, 0 < (s.threads t).writes → (s.threads u).reads = 0) ∧
    s.lock.readCnt = ∑ t, (s.threads t).reads ∧
    s.lock.writeCnt = ∑ t, (s.threads t).writes ∧
    (∀ t, (s.threads t).place = .asleep .read → 0 < s.lock.writeCnt) ∧
    (∀ t, (s.threads t).place = .asleep .write → 0 < s.lock.readCnt ∨ 0 < s.lock.writeCnt) :=
  ⟨_, rfl, rfl, rwLock_safe (System.Reachable.run .start [.lock 0 .read, .lock 1 .write]
    (System.meets_anyStep _ _) rfl)⟩

end Rojcpp.Mediator
