import Mathlib.Data.BitVec
import Rojcpp.Lib.Holder
import Rojcpp.Tinyasync.ListQueue

/-!
# The mutex for coroutines

`LockCore` is one atomic word with three bits, for the mutex, for the queue of waiters and for
whether that has a waiter, and the queue itself, which only the holder of its bit touches.
`co_await mutex.lock()` takes the mutex or puts the coroutine into the queue; `unlock` frees the
mutex when the queue is empty, and else hands it over to the coroutine in front, as a task of the
context.

Any number of coroutines run, each on whatever thread resumes it.  Every `compare_exchange_strong`
is one step, and so is what lies between two of them.  A relaxed load, and the load of an exchange
that fails, may return anything: it is a parameter of the step.  The queue is the one with
assertions.

`mutex_safe` and `mutex_fifo` are about all interleavings.  An unlock that finds no waiter frees
the mutex without a look at the bit of the queue, so that it can pass by a coroutine that is just
being queued; `mutex_strands_iff` says that this is the one way to lose a waiter.
-/

namespace Rojcpp.Tinyasync

open Function Rojcpp.Lib

/-! ### The word -/

/-- The bits of `m_flags`. -/
inductive LockBit where
  | mtxLocked
  | queLocked
  | queNotempty
  deriving DecidableEq, Repr

/-- `m_flags`, an `int`. -/
abbrev Flags := BitVec 32

/-- `k_mtx_locked`, `k_que_locked` and `k_que_notempty`. -/
def LockBit.mask : LockBit → Flags
  | .mtxLocked => 1
  | .queLocked => 2
  | .queNotempty => 4

/-- `bit_set`. -/
def bitSet (flags : Flags) (bit : LockBit) : Flags := flags ||| bit.mask

/-- `bit_clear`. -/
def bitClear (flags : Flags) (bit : LockBit) : Flags := flags &&& ~~~bit.mask

/-- `bit_test`. -/
def bitTest (flags : Flags) (bit : LockBit) : Bool := flags &&& bit.mask != 0

/-- The position of a bit. -/
def LockBit.index : LockBit → ℕ
  | .mtxLocked => 0
  | .queLocked => 1
  | .queNotempty => 2

theorem LockBit.mask_eq (bit : LockBit) : bit.mask = BitVec.twoPow 32 bit.index := by
  cases bit <;> decide

theorem LockBit.index_lt (bit : LockBit) : bit.index < 32 := by
  cases bit <;> decide

theorem LockBit.index_inj {a b : LockBit} : a.index = b.index ↔ a = b := by
  cases a <;> cases b <;> decide

theorem bitTest_eq (flags : Flags) (bit : LockBit) :
    bitTest flags bit = flags.getLsbD bit.index := by
  have hne : BitVec.twoPow 32 bit.index ≠ 0 := by
    cases bit <;> decide
  rw [bitTest, LockBit.mask_eq, BitVec.and_twoPow]
  cases h : flags.getLsbD bit.index with
  | true => exact bne_iff_ne.mpr hne
  | false => rfl

@[simp] theorem bitTest_bitSet (flags : Flags) (a b : LockBit) :
    bitTest (bitSet flags a) b = (decide (a = b) || bitTest flags b) := by
  rw [bitTest_eq, bitTest_eq, bitSet, LockBit.mask_eq, BitVec.getLsbD_or, BitVec.getLsbD_twoPow,
    Bool.or_comm]
  simp only [a.index_lt, decide_true, Bool.true_and, LockBit.index_inj]

@[simp] theorem bitTest_bitClear (flags : Flags) (a b : LockBit) :
    bitTest (bitClear flags a) b = (!decide (a = b) && bitTest flags b) := by
  rw [bitTest_eq, bitTest_eq, bitClear, LockBit.mask_eq, BitVec.getLsbD_and, BitVec.getLsbD_not,
    BitVec.getLsbD_twoPow, Bool.and_comm]
  simp only [a.index_lt, b.index_lt, decide_true, Bool.true_and, LockBit.index_inj]

theorem bitSet_eq_self {flags : Flags} {bit : LockBit} :
    bitSet flags bit = flags ↔ bitTest flags bit = true := by
  constructor
  · intro h
    rw [← h, bitTest_bitSet, decide_eq_true rfl, Bool.true_or]
  · intro h
    ext i hi
    rw [bitSet, LockBit.mask_eq, BitVec.getElem_or]
    rw [bitTest_eq] at h
    by_cases hbit : bit.index = i
    · subst hbit
      rw [BitVec.getLsbD_eq_getElem hi] at h
      rw [h, Bool.true_or]
    · rw [← BitVec.getLsbD_eq_getElem (x := BitVec.twoPow 32 bit.index), BitVec.getLsbD_twoPow,
        decide_eq_false hbit, Bool.and_false, Bool.or_false]

/-! ### The code -/

/-- One turn of the loop of `try_lock`: the word that the exchange expects, the one that it stores,
and `enqueue`. -/
def tryLockTurn (oldFlags : Flags) : Flags × Flags × Bool :=
  let flags := bitSet oldFlags .mtxLocked
  let enqueue := flags == oldFlags
  if enqueue then
    (bitClear oldFlags .queLocked, bitSet oldFlags .queLocked, enqueue)
  else (oldFlags, flags, enqueue)

/-- What `try_lock` stores when it unlocks the queue. -/
def unlockPushed (oldFlags : Flags) : Flags :=
  bitSet (bitClear oldFlags .queLocked) .queNotempty

/-- One turn of the loop of `unlock`: the word that the exchange expects, the one that it stores,
and `que_empty`. -/
def unlockTurn (unlockMtxOnlyIfQueEmpty : Bool) (oldFlags : Flags) : Flags × Flags × Bool :=
  let queEmpty := !bitTest oldFlags .queNotempty
  if queEmpty then (oldFlags, bitClear oldFlags .mtxLocked, queEmpty)
  else
    let flags := bitSet oldFlags .queLocked
    let flags := if !unlockMtxOnlyIfQueEmpty then bitClear flags .mtxLocked else flags
    (bitClear oldFlags .queLocked, flags, queEmpty)

/-- What `unlock` stores when it unlocks the queue. -/
def unlockPopped (queEmpty : Bool) (oldFlags : Flags) : Flags :=
  let flags := bitClear oldFlags .queLocked
  if queEmpty then bitClear flags .queNotempty else flags

/-- Where a coroutine is: outside the mutex; at the first exchange of `try_lock`, at `m_que.push`,
at the exchange behind it; suspended; taken from the queue by the one who unlocks; posted as a
task; the owner; at the first exchange of `unlock`, at `pop_nocheck`, at the exchange behind it; and
in `Mutex::unlock` with the coroutine that it hands the mutex over to. -/
inductive MutexPlace (ν : Type*) where
  | outside
  | tryLock
  | push
  | pushed
  | suspended
  | popped
  | posted
  | owner
  | unlock
  | pop
  | unlockQue (node : ν) (queEmpty : Bool)
  | handOver (node : ν)
  deriving DecidableEq, Repr

/-- A mutex and the coroutines that use it, each with the local variable `old_flags`.  A coroutine
stands for the `m_node` of its awaiter.  No step reads the last two fields: all coroutines that were
pushed so far, and all that were handed the mutex. -/
structure MutexState (ν : Type*) where
  flags : Flags
  que : Queue ν
  place : ν → MutexPlace ν
  oldFlags : ν → Flags
  allPushed : List ν
  handed : List ν

/-- The steps of a coroutine: it calls `lock` or `unlock`, tries its exchange, pushes, pops, posts
the task of another one, is resumed by the context.  `seen` is what the load at the end of a step
returns. -/
inductive MutexAction (ν : Type*) where
  | lock (c : ν) (seen : Flags)
  | unlock (c : ν) (seen : Flags)
  | exchange (c : ν) (seen : Flags)
  | push (c : ν) (seen : Flags)
  | pop (c : ν) (seen : Flags)
  | post (c : ν)
  | resume (c : ν)

section
variable {ν : Type*} [DecidableEq ν]

/-- A coroutine comes to another place. -/
def MutexState.move (s : MutexState ν) (c : ν) (p : MutexPlace ν) : MutexState ν :=
  { s with place := update s.place c p }

/-- A coroutine loads the word. -/
def MutexState.load (s : MutexState ν) (c : ν) (seen : Flags) : MutexState ν :=
  { s with oldFlags := update s.oldFlags c seen }

/-- `compare_exchange_strong`: the word is stored and the coroutine goes on, or it loads again. -/
def MutexState.exchange (s : MutexState ν) (c : ν) (expected desired : Flags) (next : MutexPlace ν)
    (seen : Flags) : MutexState ν :=
  if s.flags = expected then { s with flags := desired }.move c next else s.load c seen

/-- One step. -/
def mutexStep (s : MutexState ν) : MutexAction ν → Option (MutexState ν)
  | .lock c seen =>
    match s.place c with
    | .outside => some ((s.move c .tryLock).load c seen)
    | _ => none
  | .unlock c seen =>
    match s.place c with
    | .owner => some ((s.move c .unlock).load c seen)
    | _ => none
  | .exchange c seen =>
    match s.place c with
    | .tryLock =>
      let turn := tryLockTurn (s.oldFlags c)
      some (s.exchange c turn.1 turn.2.1 (if turn.2.2 then .push else .owner) seen)
    | .pushed =>
      some (s.exchange c (s.oldFlags c) (unlockPushed (s.oldFlags c)) .suspended seen)
    | .unlock =>
      let turn := unlockTurn true (s.oldFlags c)
      some (s.exchange c turn.1 turn.2.1 (if turn.2.2 then .outside else .pop) seen)
    | .unlockQue node queEmpty =>
      some (s.exchange c (s.oldFlags c) (unlockPopped queEmpty (s.oldFlags c)) (.handOver node)
        seen)
    | _ => none
  | .push c seen =>
    match s.place c with
    | .push =>
      some (({ s with que := s.que.push c, allPushed := s.allPushed ++ [c] }.move c .pushed).load c
        seen)
    | _ => none
  | .pop c seen =>
    match s.place c with
    | .pop =>
      (s.que.popNocheck false).map fun r =>
        (({ s with que := r.2 }.move r.1.1 .popped).move c (.unlockQue r.1.1 r.1.2)).load c seen
    | _ => none
  | .post c =>
    match s.place c with
    | .handOver node =>
      some (({ s with handed := s.handed ++ [node] }.move node .posted).move c .outside)
    | _ => none
  | .resume c =>
    match s.place c with
    | .posted => some (s.move c .owner)
    | _ => none

/-- A new mutex. -/
def mutex (next : Option ν → Option ν) : System (MutexState ν) (MutexAction ν) :=
  ⟨⟨0, Queue.new next, fun _ => .outside, fun _ => 0, [], []⟩, mutexStep⟩

end

/-! ### Who has what -/

section
variable {ν : Type*}

/-- The coroutine has the mutex, or the mutex is on its way to it or from it. -/
def MutexPlace.holds : MutexPlace ν → Bool
  | .posted => true
  | .owner => true
  | .unlock => true
  | .pop => true
  | .unlockQue _ _ => true
  | .handOver _ => true
  | _ => false

/-- The coroutine has locked the queue. -/
def MutexPlace.inQue : MutexPlace ν → Bool
  | .push => true
  | .pushed => true
  | .pop => true
  | .unlockQue _ _ => true
  | _ => false

/-- The node of the coroutine is in the queue. -/
def MutexPlace.queued : MutexPlace ν → Bool
  | .pushed => true
  | .suspended => true
  | _ => false

/-- The coroutine waits, or is about to. -/
def MutexPlace.waits : MutexPlace ν → Bool
  | .push => true
  | .pushed => true
  | .suspended => true
  | _ => false

/-- The node of the coroutine is with the one who unlocks. -/
def MutexPlace.isPopped : MutexPlace ν → Bool
  | .popped => true
  | _ => false

/-- The node that the coroutine has taken from the queue. -/
def MutexPlace.carries : MutexPlace ν → Option ν
  | .unlockQue node _ => some node
  | .handOver node => some node
  | _ => none

theorem MutexPlace.eq_suspended {p : MutexPlace ν} (hqueued : p.queued = true)
    (hinQue : p.inQue = false) : p = .suspended := by
  cases p <;> simp_all [queued, inQue]

theorem MutexPlace.eq_popped {p : MutexPlace ν} (h : p.isPopped = true) : p = .popped := by
  cases p <;> simp_all [isPopped]

theorem MutexPlace.waits_eq (p : MutexPlace ν) :
    p.waits = (p.queued || p.inQue && !p.holds) := by
  cases p <;> rfl

/-- What the bit for waiters says of the queue, by where the one is who has locked the queue. -/
def NotEmptyOk (notEmpty : Bool) (l : List ν) : Option (MutexPlace ν) → Prop
  | none => notEmpty = !l.isEmpty
  | some .push => notEmpty = !l.isEmpty
  | some .pushed => True
  | some .pop => notEmpty = true ∧ l ≠ []
  | some (.unlockQue _ queEmpty) => notEmpty = true ∧ queEmpty = l.isEmpty
  | some _ => False

/-- What the owner carries. -/
def MutexState.carried (s : MutexState ν) (own : Option ν) : Option ν :=
  own.bind fun c => (s.place c).carries

/-- `own` has the mutex, `que` has locked the queue, and `l` waits in it. -/
structure MutexState.Shape (s : MutexState ν) (own que : Option ν) (l : List ν) : Prop where
  mtxLocked : bitTest s.flags .mtxLocked = own.isSome
  queLocked : bitTest s.flags .queLocked = que.isSome
  notEmpty : NotEmptyOk (bitTest s.flags .queNotempty) l (que.map s.place)
  holds : Holder MutexPlace.holds s.place own
  inQue : Holder MutexPlace.inQue s.place que
  queued : ∀ c, (s.place c).queued = true ↔ c ∈ l
  popped : Holder MutexPlace.isPopped s.place (s.carried own)
  queue : s.que.Holds l
  history : s.allPushed = s.handed ++ (s.carried own).toList ++ l

variable [DecidableEq ν] {s : MutexState ν} {own que : Option ν} {l : List ν} {c : ν}

theorem mutex_start (next : Option ν → Option ν) :
    (mutex next).start.Shape none none [] where
  mtxLocked := show bitTest 0 .mtxLocked = false by decide
  queLocked := show bitTest 0 .queLocked = false by decide
  notEmpty := show bitTest 0 .queNotempty = false by decide
  holds _ := iff_of_false nofun nofun
  inQue _ := iff_of_false nofun nofun
  queued _ := iff_of_false nofun nofun
  popped _ := iff_of_false nofun nofun
  queue := Queue.holds_new next
  history := rfl

theorem MutexState.Shape.load (h : s.Shape own que l) (c : ν) (seen : Flags) :
    (s.load c seen).Shape own que l :=
  { h with }

/-! ### What a move leaves alone -/

theorem map_update_place (hc : que ≠ some c) (f : ν → MutexPlace ν) (p : MutexPlace ν) :
    que.map (update f c p) = que.map f := by
  cases que with
  | none => rfl
  | some d =>
    have hd : d ≠ c := fun e => hc (congrArg some e)
    show some (update f c p d) = some (f d)
    rw [update_of_ne hd]

theorem carried_move (hc : own ≠ some c) (p : MutexPlace ν) :
    (s.move c p).carried own = s.carried own := by
  cases own with
  | none => rfl
  | some d =>
    have hd : d ≠ c := fun e => hc (congrArg some e)
    show (update s.place c p d).carries = (s.place d).carries
    rw [update_of_ne hd]

theorem carried_move_self (p : MutexPlace ν) : (s.move c p).carried (some c) = p.carries := by
  show (update s.place c p c).carries = p.carries
  rw [update_self]

/-! ### The steps -/

/-- A coroutine outside the queue goes on, and neither takes nor frees anything. -/
theorem MutexState.Shape.walk (h : s.Shape own que l) {p : MutexPlace ν}
    (hholds : p.holds = (s.place c).holds) (hque : (s.place c).inQue = false ∧ p.inQue = false)
    (hqueued : p.queued = (s.place c).queued) (hpopped : p.isPopped = (s.place c).isPopped)
    (hcarries : p.carries = (s.place c).carries) : (s.move c p).Shape own que l := by
  have hcarried : (s.move c p).carried own = s.carried own := by
    by_cases hc : own = some c
    · rw [hc, carried_move_self, hcarries]
      rfl
    · exact carried_move hc p
  refine ⟨h.mtxLocked, h.queLocked, ?_, h.holds.keep hholds, ?_, marks_keep h.queued hqueued, ?_,
    h.queue, ?_⟩
  · show NotEmptyOk _ l (que.map (update s.place c p))
    rw [map_update_place (h.inQue.ne hque.1)]
    exact h.notEmpty
  · exact h.inQue.keep (hque.2.trans hque.1.symm)
  · rw [hcarried]
    exact h.popped.keep hpopped
  · rw [hcarried]
    exact h.history

/-- `try_lock` takes a mutex that is free. -/
theorem MutexState.Shape.takeMutex (h : s.Shape none que l) (hc : s.place c = .tryLock) :
    ({ s with flags := bitSet s.flags .mtxLocked }.move c .owner).Shape (some c) que l where
  mtxLocked := by simp [MutexState.move]
  queLocked := by simpa [MutexState.move] using h.queLocked
  notEmpty := by
    show NotEmptyOk (bitTest (bitSet s.flags _) _) l (que.map (update s.place c .owner))
    rw [map_update_place (h.inQue.ne (by rw [hc]; rfl)), bitTest_bitSet]
    exact h.notEmpty
  holds := h.holds.take rfl
  inQue := h.inQue.keep (by rw [hc]; rfl)
  queued := marks_keep h.queued (by rw [hc]; rfl)
  popped := by
    rw [carried_move_self]
    exact h.popped.keep (by rw [hc]; rfl)
  queue := h.queue
  history := by
    rw [carried_move_self]
    exact h.history

/-- `try_lock` locks the queue when the mutex is taken. -/
theorem MutexState.Shape.lockQue (h : s.Shape own none l) (hc : s.place c = .tryLock) :
    ({ s with flags := bitSet s.flags .queLocked }.move c .push).Shape own (some c) l where
  mtxLocked := by simpa [MutexState.move] using h.mtxLocked
  queLocked := by simp [MutexState.move]
  notEmpty := by
    show NotEmptyOk (bitTest (bitSet s.flags _) _) l (some (update s.place c .push c))
    rw [update_self, bitTest_bitSet]
    exact h.notEmpty
  holds := h.holds.keep (by rw [hc]; rfl)
  inQue := h.inQue.take rfl
  queued := marks_keep h.queued (by rw [hc]; rfl)
  popped := by
    rw [carried_move (s := { s with flags := _ }) (h.holds.ne (by rw [hc]; rfl))]
    exact h.popped.keep (by rw [hc]; rfl)
  queue := h.queue
  history := by
    rw [carried_move (s := { s with flags := _ }) (h.holds.ne (by rw [hc]; rfl))]
    exact h.history

/-- `m_que.push`. -/
theorem MutexState.Shape.pushNode (h : s.Shape own (some c) l) (hc : s.place c = .push) :
    ({ s with que := s.que.push c, allPushed := s.allPushed ++ [c] }.move c .pushed).Shape own
      (some c) (l ++ [c]) where
  mtxLocked := h.mtxLocked
  queLocked := h.queLocked
  notEmpty := by
    show NotEmptyOk _ _ (some (update s.place c .pushed c))
    rw [update_self]
    exact trivial
  holds := h.holds.keep (by rw [hc]; rfl)
  inQue := h.inQue.keep (by rw [hc]; rfl)
  queued := by
    refine marks_update h.queued (iff_of_true rfl (List.mem_append_right l List.mem_cons_self)) ?_
    intro x hx
    rw [List.mem_append, List.mem_singleton]
    exact or_iff_left hx
  popped := by
    rw [carried_move (s := { s with que := _, allPushed := _ }) (h.holds.ne (by rw [hc]; rfl))]
    exact h.popped.keep (by rw [hc]; rfl)
  queue := by
    refine h.queue.push fun hmem => ?_
    have hqueued := (h.queued c).mpr hmem
    rw [hc] at hqueued
    exact absurd hqueued Bool.false_ne_true
  history := by
    rw [carried_move (s := { s with que := _, allPushed := _ }) (h.holds.ne (by rw [hc]; rfl))]
    show s.allPushed ++ [c] = s.handed ++ (s.carried own).toList ++ (l ++ [c])
    rw [h.history, List.append_assoc, List.append_assoc]

/-- `try_lock` unlocks the queue: the coroutine is suspended. -/
theorem MutexState.Shape.unlockPushed (h : s.Shape own (some c) l) (hc : s.place c = .pushed) :
    ({ s with flags := Tinyasync.unlockPushed s.flags }.move c .suspended).Shape own none l where
  mtxLocked := by
    simpa [MutexState.move, Tinyasync.unlockPushed] using h.mtxLocked
  queLocked := by simp [MutexState.move, Tinyasync.unlockPushed]
  notEmpty := by
    have hmem := (h.queued c).mp (by rw [hc]; rfl)
    show bitTest (Tinyasync.unlockPushed s.flags) .queNotempty = !l.isEmpty
    rw [List.isEmpty_eq_false_iff.mpr (List.ne_nil_of_mem hmem)]
    simp [Tinyasync.unlockPushed]
  holds := h.holds.keep (by rw [hc]; rfl)
  inQue := h.inQue.drop rfl
  queued := marks_keep h.queued (by rw [hc]; rfl)
  popped := by
    rw [carried_move (s := { s with flags := _ }) (h.holds.ne (by rw [hc]; rfl))]
    exact h.popped.keep (by rw [hc]; rfl)
  queue := h.queue
  history := by
    rw [carried_move (s := { s with flags := _ }) (h.holds.ne (by rw [hc]; rfl))]
    exact h.history

/-- `unlock` frees the mutex when it sees no waiter. -/
theorem MutexState.Shape.freeMutex (h : s.Shape (some c) que l) (hc : s.place c = .unlock) :
    ({ s with flags := bitClear s.flags .mtxLocked }.move c .outside).Shape none que l where
  mtxLocked := by simp [MutexState.move]
  queLocked := by simpa [MutexState.move] using h.queLocked
  notEmpty := by
    show NotEmptyOk (bitTest (bitClear s.flags _) _) l (que.map (update s.place c .outside))
    rw [map_update_place (h.inQue.ne (by rw [hc]; rfl)), bitTest_bitClear]
    exact h.notEmpty
  holds := h.holds.drop rfl
  inQue := h.inQue.keep (by rw [hc]; rfl)
  queued := marks_keep h.queued (by rw [hc]; rfl)
  popped := by
    have hnone : s.carried (some c) = none := congrArg MutexPlace.carries hc
    have hpopped := h.popped
    rw [hnone] at hpopped
    exact hpopped.keep (by rw [hc]; rfl)
  queue := h.queue
  history := by
    have hnone : s.carried (some c) = none := congrArg MutexPlace.carries hc
    have hhistory := h.history
    rw [hnone] at hhistory
    exact hhistory

/-- `unlock` locks the queue when it sees a waiter. -/
theorem MutexState.Shape.lockPop (h : s.Shape own none l) (hc : s.place c = .unlock)
    (hwaiter : bitTest s.flags .queNotempty = true) :
    ({ s with flags := bitSet s.flags .queLocked }.move c .pop).Shape own (some c) l where
  mtxLocked := by simpa [MutexState.move] using h.mtxLocked
  queLocked := by simp [MutexState.move]
  notEmpty := by
    show NotEmptyOk (bitTest (bitSet s.flags _) _) l (some (update s.place c .pop c))
    have hempty : bitTest s.flags .queNotempty = !l.isEmpty := h.notEmpty
    rw [update_self, bitTest_bitSet]
    refine ⟨hwaiter, ?_⟩
    rw [hwaiter] at hempty
    exact List.isEmpty_eq_false_iff.mp (by simpa using hempty.symm)
  holds := h.holds.keep (by rw [hc]; rfl)
  inQue := h.inQue.take rfl
  queued := marks_keep h.queued (by rw [hc]; rfl)
  popped := by
    have hown := h.holds.own_eq (c := c) (by rw [hc]; rfl)
    have hpopped := h.popped
    have hnone : s.carried (some c) = none := congrArg MutexPlace.carries hc
    rw [hown, hnone] at hpopped
    rw [hown, carried_move_self]
    exact hpopped.keep (by rw [hc]; rfl)
  queue := h.queue
  history := by
    have hown := h.holds.own_eq (c := c) (by rw [hc]; rfl)
    have hhistory := h.history
    have hnone : s.carried (some c) = none := congrArg MutexPlace.carries hc
    rw [hown, hnone] at hhistory
    rw [hown, carried_move_self]
    exact hhistory

/-- `pop_nocheck` takes the first waiter. -/
theorem MutexState.Shape.popNode {n : ν} {q : Queue ν} (h : s.Shape own (some c) (n :: l))
    (hc : s.place c = .pop) (hq : q.Holds l) :
    (({ s with que := q }.move n .popped).move c (.unlockQue n l.isEmpty)).Shape own (some c)
      l := by
  have hn := (h.queued n).mpr List.mem_cons_self
  have hne : c ≠ n := by
    intro e
    rw [← e, hc] at hn
    exact absurd hn Bool.false_ne_true
  -- the waiter has left the queue's section: the one who unlocks is in it
  have hplace : s.place n = .suspended := by
    have hout := h.inQue.ne' (c := n) fun e => hne (Option.some.inj e)
    exact MutexPlace.eq_suspended hn hout
  have hc' : update s.place n .popped c = .pop := (update_of_ne hne _ _).trans hc
  have hown := h.holds.own_eq (c := c) (by rw [hc]; rfl)
  subst hown
  have hnone : s.carried (some c) = none := congrArg MutexPlace.carries hc
  refine ⟨h.mtxLocked, h.queLocked, ?_, ?_, ?_, ?_, ?_, hq, ?_⟩
  · show NotEmptyOk (bitTest s.flags _) l (some
      (update (update s.place n .popped) c (MutexPlace.unlockQue n l.isEmpty) c))
    have hwaiter := h.notEmpty
    rw [Option.map_some, hc] at hwaiter
    rw [update_self]
    exact ⟨hwaiter.1, rfl⟩
  · exact (h.holds.keep (c := n) (p := .popped) (by rw [hplace]; rfl)).keep (by rw [hc']; rfl)
  · exact (h.inQue.keep (c := n) (p := .popped) (by rw [hplace]; rfl)).keep (by rw [hc']; rfl)
  · have hqueued : ∀ x, (update s.place n .popped x).queued = true ↔ x ∈ l := by
      refine marks_update h.queued (iff_of_false nofun (List.nodup_cons.mp h.queue.nodup).1) ?_
      intro x hx
      rw [List.mem_cons]
      exact (or_iff_right hx).symm
    refine marks_keep hqueued ?_
    show _ = (update s.place n .popped c).queued
    rw [hc']
    rfl
  · have hpopped := h.popped
    rw [hnone] at hpopped
    rw [carried_move_self (s := MutexState.move _ n .popped)]
    exact (hpopped.take (c := n) (p := .popped) rfl).keep (by rw [hc']; rfl)
  · have hhistory := h.history
    rw [hnone] at hhistory
    rw [carried_move_self (s := MutexState.move _ n .popped)]
    rw [Option.toList_none, List.append_nil] at hhistory
    show s.allPushed = s.handed ++ [n] ++ l
    rw [hhistory, List.append_assoc, List.singleton_append]

/-- `unlock` unlocks the queue. -/
theorem MutexState.Shape.unlockPopped {n : ν} {queEmpty : Bool} (h : s.Shape own (some c) l)
    (hc : s.place c = .unlockQue n queEmpty) :
    ({ s with flags := Tinyasync.unlockPopped queEmpty s.flags }.move c (.handOver n)).Shape own
      none l := by
  have hwaiter := h.notEmpty
  rw [Option.map_some, hc] at hwaiter
  obtain ⟨hbit, hempty⟩ := hwaiter
  have hown := h.holds.own_eq (c := c) (by rw [hc]; rfl)
  subst hown
  have hsome : s.carried (some c) = some n := congrArg MutexPlace.carries hc
  refine ⟨?_, ?_, ?_, h.holds.keep (by rw [hc]; rfl), h.inQue.drop rfl,
    marks_keep h.queued (by rw [hc]; rfl), ?_, h.queue, ?_⟩
  · have hmtx := h.mtxLocked
    cases queEmpty <;> simpa [MutexState.move, Tinyasync.unlockPopped] using hmtx
  · cases queEmpty <;> simp [MutexState.move, Tinyasync.unlockPopped]
  · show bitTest (Tinyasync.unlockPopped queEmpty s.flags) .queNotempty = !l.isEmpty
    rw [← hempty]
    cases queEmpty <;> simp [Tinyasync.unlockPopped, hbit]
  · have hpopped := h.popped
    rw [hsome] at hpopped
    rw [carried_move_self]
    exact hpopped.keep (by rw [hc]; rfl)
  · have hhistory := h.history
    rw [hsome] at hhistory
    rw [carried_move_self]
    exact hhistory

/-- `Mutex::unlock` posts the task that resumes the next owner. -/
theorem MutexState.Shape.handOver {n : ν} (h : s.Shape own que l)
    (hc : s.place c = .handOver n) :
    (({ s with handed := s.handed ++ [n] }.move n .posted).move c .outside).Shape (some n) que
      l := by
  have hown := h.holds.own_eq (c := c) (by rw [hc]; rfl)
  subst hown
  have hsome : s.carried (some c) = some n := congrArg MutexPlace.carries hc
  have hpopped := h.popped
  rw [hsome] at hpopped
  have hplace := MutexPlace.eq_popped ((hpopped n).mpr rfl)
  have hne : c ≠ n := by
    intro e
    rw [← e, hc] at hplace
    cases hplace
  have hc' : update s.place n .posted c = .handOver n := (update_of_ne hne _ _).trans hc
  refine ⟨h.mtxLocked, h.queLocked, ?_, ?_, ?_, ?_, ?_, h.queue, ?_⟩
  · show NotEmptyOk _ l (que.map (update (update s.place n .posted) c .outside))
    rw [map_update_place (h.inQue.ne (by rw [hc]; rfl)),
      map_update_place (h.inQue.ne (by rw [hplace]; rfl))]
    exact h.notEmpty
  · show Holder _ (update (update s.place n .posted) c .outside) _
    rw [update_comm hne.symm]
    exact (h.holds.drop rfl).take rfl
  · exact (h.inQue.keep (c := n) (p := .posted) (by rw [hplace]; rfl)).keep (by rw [hc']; rfl)
  · have hqueued : ∀ x, (update s.place n .posted x).queued = true ↔ x ∈ l :=
      marks_keep h.queued (by rw [hplace]; rfl)
    refine marks_keep hqueued ?_
    show _ = (update s.place n .posted c).queued
    rw [hc']
    rfl
  · rw [carried_move (s := MutexState.move _ n .posted) (fun e => hne (Option.some.inj e).symm),
      carried_move_self]
    exact (hpopped.drop (p := .posted) rfl).keep (by rw [hc']; rfl)
  · have hhistory := h.history
    rw [hsome] at hhistory
    rw [carried_move (s := MutexState.move _ n .posted) (fun e => hne (Option.some.inj e).symm),
      carried_move_self]
    show s.allPushed = s.handed ++ [n] ++ [] ++ l
    rw [hhistory, List.append_nil]
    rfl

end

/-! ### The lock that they make -/

/-- A lock: who has it, who has locked its queue, and who waits. -/
structure LockView (ν : Type*) where
  own : Option ν
  que : Option ν
  waiters : List ν

/-- What happens to a lock in one step.  It is taken when nobody has it; only a lock that somebody
has gets its queue locked; the first waiter leaves the queue while the owner has both; the owner
frees the lock, if `frees`, or hands it over. -/
inductive LockTurn {ν : Type*} (frees : Prop) : LockView ν → LockView ν → Prop
  | stay (x : LockView ν) : LockTurn frees x x
  | take (c : ν) (q : Option ν) (l : List ν) : LockTurn frees ⟨none, q, l⟩ ⟨some c, q, l⟩
  | lockQue (c o : ν) (l : List ν) : LockTurn frees ⟨some o, none, l⟩ ⟨some o, some c, l⟩
  | push (c : ν) (o : Option ν) (l : List ν) :
      LockTurn frees ⟨o, some c, l⟩ ⟨o, some c, l ++ [c]⟩
  | pop (c n : ν) (l : List ν) : LockTurn frees ⟨some c, some c, n :: l⟩ ⟨some c, some c, l⟩
  | unlockQue (c : ν) (o : Option ν) (l : List ν) : LockTurn frees ⟨o, some c, l⟩ ⟨o, none, l⟩
  | free (c : ν) (q : Option ν) (l : List ν) (h : frees) :
      LockTurn frees ⟨some c, q, l⟩ ⟨none, q, l⟩
  | handOver (c n : ν) (q : Option ν) (l : List ν) : LockTurn frees ⟨some c, q, l⟩ ⟨some n, q, l⟩

/-- A lock that is free has no waiters, and nobody is about to wait. -/
def LockView.Idle {ν : Type*} (x : LockView ν) : Prop :=
  x.own = none → x.que = none ∧ x.waiters = []

/-- A lock stays idle when it is free, unless it is freed while somebody waits or is about to. -/
theorem LockTurn.idle {ν : Type*} {frees : Prop} {x y : LockView ν} (h : LockTurn frees x y)
    (hx : x.Idle) (hfrees : frees → x.que = none ∧ x.waiters = []) : y.Idle := by
  cases h with
  | stay => exact hx
  | take => exact nofun
  | lockQue => exact nofun
  | push c o l => exact fun ho => absurd (hx ho).1 (Option.some_ne_none c)
  | pop => exact nofun
  | unlockQue c o l => exact fun ho => absurd (hx ho).1 (Option.some_ne_none c)
  | free c q l hf => exact fun _ => hfrees hf
  | handOver => exact nofun

/-! ### One step -/

theorem bitSet_bitClear (flags : Flags) (bit : LockBit) :
    bitSet (bitClear flags bit) bit = bitSet flags bit := by
  ext i hi
  simp only [bitSet, bitClear, BitVec.getElem_or, BitVec.getElem_and, BitVec.getElem_not]
  cases bit.mask[i] <;> simp

theorem tryLockTurn_of_free {old : Flags} (h : bitTest old .mtxLocked = false) :
    tryLockTurn old = (old, bitSet old .mtxLocked, false) := by
  have hne : (bitSet old .mtxLocked == old) = false := by
    rw [beq_eq_false_iff_ne, Ne, bitSet_eq_self, h]
    exact Bool.false_ne_true
  rw [tryLockTurn, hne]
  rfl

theorem tryLockTurn_of_locked {old : Flags} (h : bitTest old .mtxLocked = true) :
    tryLockTurn old = (bitClear old .queLocked, bitSet old .queLocked, true) := by
  have heq : (bitSet old .mtxLocked == old) = true := beq_iff_eq.mpr (bitSet_eq_self.mpr h)
  rw [tryLockTurn, heq]
  rfl

theorem unlockTurn_of_empty {old : Flags} (h : bitTest old .queNotempty = false) :
    unlockTurn true old = (old, bitClear old .mtxLocked, true) := by
  rw [unlockTurn, h]
  rfl

theorem unlockTurn_of_waiter {old : Flags} (h : bitTest old .queNotempty = true) :
    unlockTurn true old = (bitClear old .queLocked, bitSet old .queLocked, false) := by
  rw [unlockTurn, h]
  rfl

/-- A bit that is clear: nobody has what it is for. -/
theorem eq_none_of_bit {ν : Type*} {o : Option ν} {b : Bool} (h : b = o.isSome)
    (hb : b = false) : o = none :=
  Option.isNone_iff_eq_none.mp (Option.isSome_eq_false_iff.mp (h.symm.trans hb))

theorem exists_of_bit {ν : Type*} {o : Option ν} {b : Bool} (h : b = o.isSome) (hb : b = true) :
    ∃ d, o = some d :=
  Option.isSome_iff_exists.mp (h.symm.trans hb)

section
variable {ν : Type*} [DecidableEq ν] {s s' : MutexState ν} {c : ν}

/-- The step frees the mutex: `unlock` has seen no waiter, and its exchange succeeds. -/
def MutexState.Frees (s : MutexState ν) : MutexAction ν → Prop
  | .exchange c _ =>
    s.place c = .unlock ∧ s.flags = s.oldFlags c ∧ bitTest s.flags .queNotempty = false
  | _ => False

instance (s : MutexState ν) : ∀ a, Decidable (s.Frees a)
  | .exchange c _ => inferInstanceAs (Decidable
      (s.place c = .unlock ∧ s.flags = s.oldFlags c ∧ bitTest s.flags .queNotempty = false))
  | .lock _ _ | .unlock _ _ | .push _ _ | .pop _ _ | .post _ | .resume _ => isFalse id

/-- The state is that of a lock. -/
def MutexState.View (s : MutexState ν) (x : LockView ν) : Prop := s.Shape x.own x.que x.waiters

variable {x : LockView ν} {frees : Prop}

/-- An exchange that fails changes nothing but what the coroutine has loaded. -/
theorem MutexState.View.exchange (h : s.View x) {expected desired : Flags} {next : MutexPlace ν}
    (seen : Flags)
    (hok : s.flags = expected → ∃ y, LockTurn frees x y ∧
      ({ s with flags := desired }.move c next).View y) :
    ∃ y, LockTurn frees x y ∧ (s.exchange c expected desired next seen).View y := by
  rw [MutexState.exchange]
  split
  · rename_i hflags
    exact hok hflags
  · exact ⟨x, .stay x, MutexState.Shape.load h c seen⟩

/-- The first exchange of `try_lock`. -/
theorem MutexState.View.tryLock (h : s.View x) (hc : s.place c = .tryLock) (seen : Flags) :
    ∃ y, LockTurn frees x y ∧ (s.exchange c (tryLockTurn (s.oldFlags c)).1
      (tryLockTurn (s.oldFlags c)).2.1 (if (tryLockTurn (s.oldFlags c)).2.2 then .push else .owner)
      seen).View y := by
  obtain ⟨own, que, l⟩ := x
  cases hold : bitTest (s.oldFlags c) .mtxLocked with
  | false =>
    rw [tryLockTurn_of_free hold]
    refine h.exchange seen fun hflags => ?_
    have hflags : s.flags = s.oldFlags c := hflags
    obtain rfl : own = none := eq_none_of_bit h.mtxLocked (hflags ▸ hold)
    refine ⟨⟨some c, que, l⟩, .take c que l, ?_⟩
    rw [← hflags]
    exact MutexState.Shape.takeMutex h hc
  | true =>
    rw [tryLockTurn_of_locked hold]
    refine h.exchange seen fun hflags => ?_
    have hflags : s.flags = bitClear (s.oldFlags c) .queLocked := hflags
    obtain ⟨o, rfl⟩ : ∃ o, own = some o :=
      exists_of_bit h.mtxLocked (by rw [hflags, bitTest_bitClear, hold]; rfl)
    obtain rfl : que = none := eq_none_of_bit h.queLocked (by rw [hflags, bitTest_bitClear]; rfl)
    refine ⟨⟨some o, some c, l⟩, .lockQue c o l, ?_⟩
    rw [← bitSet_bitClear, ← hflags]
    exact MutexState.Shape.lockQue h hc

/-- The first exchange of `unlock`. -/
theorem MutexState.View.unlock (h : s.View x) (hc : s.place c = .unlock) (seen : Flags) :
    ∃ y, LockTurn (s.Frees (.exchange c seen)) x y ∧
      (s.exchange c (unlockTurn true (s.oldFlags c)).1 (unlockTurn true (s.oldFlags c)).2.1
        (if (unlockTurn true (s.oldFlags c)).2.2 then .outside else .pop) seen).View y := by
  obtain ⟨own, que, l⟩ := x
  have hown : own = some c := MutexState.Shape.holds h |>.own_eq (by rw [hc]; rfl)
  subst hown
  cases hold : bitTest (s.oldFlags c) .queNotempty with
  | false =>
    rw [unlockTurn_of_empty hold]
    refine h.exchange seen fun hflags => ?_
    have hflags : s.flags = s.oldFlags c := hflags
    refine ⟨⟨none, que, l⟩, .free c que l ⟨hc, hflags, hflags ▸ hold⟩, ?_⟩
    rw [← hflags]
    exact MutexState.Shape.freeMutex h hc
  | true =>
    rw [unlockTurn_of_waiter hold]
    refine h.exchange seen fun hflags => ?_
    have hflags : s.flags = bitClear (s.oldFlags c) .queLocked := hflags
    obtain rfl : que = none := eq_none_of_bit h.queLocked (by rw [hflags, bitTest_bitClear]; rfl)
    refine ⟨⟨some c, some c, l⟩, .lockQue c c l, ?_⟩
    rw [← bitSet_bitClear, ← hflags]
    exact MutexState.Shape.lockPop h hc (by rw [hflags, bitTest_bitClear, hold]; rfl)

/-- `pop_nocheck` finds a waiter. -/
theorem MutexState.View.popNocheck (h : s.View x) (hc : s.place c = .pop) :
    ∃ n l q, x = ⟨some c, some c, n :: l⟩ ∧ s.que.popNocheck false = some ((n, l.isEmpty), q) ∧
      q.Holds l := by
  obtain ⟨own, que, l⟩ := x
  have hown : own = some c := MutexState.Shape.holds h |>.own_eq (by rw [hc]; rfl)
  have hque : que = some c := MutexState.Shape.inQue h |>.own_eq (by rw [hc]; rfl)
  subst hown
  subst hque
  have hne := h.notEmpty
  rw [Option.map_some, hc] at hne
  cases l with
  | nil => exact absurd rfl hne.2
  | cons n l =>
    obtain ⟨q, hpop, hq⟩ := h.queue.popNocheck false
    exact ⟨n, l, q, rfl, hpop, hq⟩

/-- **One step of the code is one turn of the lock.** -/
theorem mutex_step {a : MutexAction ν} (h : s.View x) (hs : mutexStep s a = some s') :
    ∃ y, LockTurn (s.Frees a) x y ∧ s'.View y := by
  cases a with
  | lock c seen =>
    rw [mutexStep] at hs
    split at hs
    · rename_i hc
      cases hs
      refine ⟨x, .stay x, (MutexState.Shape.walk h ?_ ⟨?_, rfl⟩ ?_ ?_ ?_).load c seen⟩ <;>
        rw [hc] <;> rfl
    · cases hs
  | unlock c seen =>
    rw [mutexStep] at hs
    split at hs
    · rename_i hc
      cases hs
      refine ⟨x, .stay x, (MutexState.Shape.walk h ?_ ⟨?_, rfl⟩ ?_ ?_ ?_).load c seen⟩ <;>
        rw [hc] <;> rfl
    · cases hs
  | exchange c seen =>
    rw [mutexStep] at hs
    split at hs
    · rename_i hc
      cases hs
      exact h.tryLock hc seen
    · rename_i hc
      cases hs
      refine h.exchange seen fun hflags => ?_
      obtain ⟨own, que, l⟩ := x
      have hque : que = some c := MutexState.Shape.inQue h |>.own_eq (by rw [hc]; rfl)
      subst hque
      rw [← hflags]
      exact ⟨⟨own, none, l⟩, .unlockQue c own l, MutexState.Shape.unlockPushed h hc⟩
    · rename_i hc
      cases hs
      exact h.unlock hc seen
    · rename_i node queEmpty hc
      cases hs
      refine h.exchange seen fun hflags => ?_
      obtain ⟨own, que, l⟩ := x
      have hque : que = some c := MutexState.Shape.inQue h |>.own_eq (by rw [hc]; rfl)
      subst hque
      rw [← hflags]
      exact ⟨⟨own, none, l⟩, .unlockQue c own l, MutexState.Shape.unlockPopped h hc⟩
    · cases hs
  | push c seen =>
    rw [mutexStep] at hs
    split at hs
    · rename_i hc
      cases hs
      obtain ⟨own, que, l⟩ := x
      have hque : que = some c := MutexState.Shape.inQue h |>.own_eq (by rw [hc]; rfl)
      subst hque
      exact ⟨⟨own, some c, l ++ [c]⟩, .push c own l, (MutexState.Shape.pushNode h hc).load c seen⟩
    · cases hs
  | pop c seen =>
    rw [mutexStep] at hs
    split at hs
    · rename_i hc
      obtain ⟨n, l, q, rfl, hpop, hq⟩ := h.popNocheck hc
      rw [hpop] at hs
      cases hs
      exact ⟨⟨some c, some c, l⟩, .pop c n l, (MutexState.Shape.popNode h hc hq).load c seen⟩
    · cases hs
  | post c =>
    rw [mutexStep] at hs
    split at hs
    · rename_i node hc
      cases hs
      obtain ⟨own, que, l⟩ := x
      have hown : own = some c := MutexState.Shape.holds h |>.own_eq (by rw [hc]; rfl)
      subst hown
      exact ⟨⟨some node, que, l⟩, .handOver c node que l, MutexState.Shape.handOver h hc⟩
    · cases hs
  | resume c =>
    rw [mutexStep] at hs
    split at hs
    · rename_i hc
      cases hs
      refine ⟨x, .stay x, MutexState.Shape.walk h ?_ ⟨?_, rfl⟩ ?_ ?_ ?_⟩ <;> rw [hc] <;> rfl
    · cases hs

/-! ### All interleavings -/

theorem mutex_view {next : Option ν → Option ν} (h : (mutex next).Reachable System.anyStep s) :
    ∃ x, s.View x := by
  refine System.Reachable.invariant (fun s => ∃ x, MutexState.View s x)
    ⟨⟨none, none, []⟩, mutex_start next⟩ ?_ h
  intro s a s' hx _ hs
  obtain ⟨x, hx⟩ := hx
  obtain ⟨y, -, hy⟩ := mutex_step hx hs
  exact ⟨y, hy⟩

/-- **Mutual exclusion.**  The mutex has one owner at most, also while it is handed over, and one
coroutine at most is in the queue; the word says so, so that the assertions on it hold, and
`pop_nocheck` finds a node. -/
theorem mutex_safe {next : Option ν → Option ν} (h : (mutex next).Reachable System.anyStep s) :
    (∀ c d, (s.place c).holds = true → (s.place d).holds = true → c = d) ∧
      (∀ c d, (s.place c).inQue = true → (s.place d).inQue = true → c = d) ∧
      (∀ c, (s.place c).holds = true → bitTest s.flags .mtxLocked = true) ∧
      (∀ c, (s.place c).inQue = true → bitTest s.flags .queLocked = true) ∧
      ∀ c, s.place c = .pop → (s.que.popNocheck false).isSome = true := by
  obtain ⟨x, hx⟩ := mutex_view h
  have hholds := MutexState.Shape.holds hx
  have hinQue := MutexState.Shape.inQue hx
  refine ⟨fun c d => hholds.eq, fun c d => hinQue.eq, fun c hc => ?_, fun c hc => ?_,
    fun c hc => ?_⟩
  · rw [MutexState.Shape.mtxLocked hx, hholds.own_eq hc]
    rfl
  · rw [MutexState.Shape.queLocked hx, hinQue.own_eq hc]
    rfl
  · obtain ⟨n, l, q, -, hpop, -⟩ := hx.popNocheck hc
    rw [hpop]
    rfl

/-- A second coroutine waits, and is handed the mutex. -/
def handOverRun : List (MutexAction Bool) :=
  [.lock false 0, .exchange false 0, .lock true 1, .exchange true 0, .push true 3,
    .exchange true 0, .unlock false 5, .exchange false 0, .pop false 7, .exchange false 0]

theorem handOverRun_places :
    ((mutex fun _ => none).run (mutex fun _ => none).start handOverRun).map
      (fun s => (s.place false, s.place true, s.flags)) = some (.handOver true, .popped, 1) := by
  rfl

theorem mutex_safe_handOver : ∃ s : MutexState Bool,
    (mutex fun _ => none).run (mutex fun _ => none).start handOverRun = some s ∧
      ∀ c d, (s.place c).holds = true → (s.place d).holds = true → c = d := by
  obtain ⟨s, hs, -⟩ := Option.map_eq_some_iff.mp handOverRun_places
  have hreach : (mutex fun _ => none).Reachable System.anyStep s :=
    System.Reachable.start.run handOverRun (System.meets_anyStep _ _) hs
  exact ⟨s, hs, (mutex_safe hreach).1⟩

/-- **Every waiter once, and in order.**  The coroutines that were pushed are those that were handed
the mutex, then the one that is being handed it, then those in the queue, which the pointers hold;
these are the coroutines that are suspended or about to be. -/
theorem mutex_fifo {next : Option ν → Option ν} (h : (mutex next).Reachable System.anyStep s) :
    ∃ carried : Option ν, ∃ l, s.allPushed = s.handed ++ carried.toList ++ l ∧ s.que.Holds l ∧
      (∀ c, (s.place c).queued = true ↔ c ∈ l) ∧
      ∀ c, s.place c = .popped ↔ carried = some c := by
  obtain ⟨x, hx⟩ := mutex_view h
  have hpopped := MutexState.Shape.popped hx
  refine ⟨_, x.waiters, MutexState.Shape.history hx, MutexState.Shape.queue hx,
    MutexState.Shape.queued hx, fun c => ⟨fun hc => ?_, fun hc => ?_⟩⟩
  · exact (hpopped c).mp (by rw [hc]; rfl)
  · exact MutexPlace.eq_popped ((hpopped c).mpr hc)

theorem mutex_fifo_handOver : ∃ s : MutexState Bool,
    (mutex fun _ => none).run (mutex fun _ => none).start handOverRun = some s ∧
      ∃ carried : Option Bool, ∃ l, s.allPushed = s.handed ++ carried.toList ++ l ∧
        s.que.Holds l ∧ (∀ c, (s.place c).queued = true ↔ c ∈ l) ∧
        ∀ c, s.place c = .popped ↔ carried = some c := by
  obtain ⟨s, hs, -⟩ := Option.map_eq_some_iff.mp handOverRun_places
  have hreach : (mutex fun _ => none).Reachable System.anyStep s :=
    System.Reachable.start.run handOverRun (System.meets_anyStep _ _) hs
  exact ⟨s, hs, mutex_fifo hreach⟩

/-! ### Lost waiters -/

/-- While the mutex is free, no coroutine waits for it or is about to. -/
def MutexState.NoneStranded (s : MutexState ν) : Prop :=
  bitTest s.flags .mtxLocked = false → ∀ c, (s.place c).waits = false

/-- The step frees the mutex while a coroutine is being queued. -/
def MutexState.PassesBy (s : MutexState ν) (a : MutexAction ν) : Prop :=
  s.Frees a ∧ bitTest s.flags .queLocked = true

instance (s : MutexState ν) (a : MutexAction ν) : Decidable (s.PassesBy a) :=
  inferInstanceAs (Decidable (s.Frees a ∧ bitTest s.flags .queLocked = true))

omit [DecidableEq ν] in
theorem MutexState.View.noneStranded_iff (h : s.View x) : s.NoneStranded ↔ x.Idle := by
  have hholds := MutexState.Shape.holds h
  have hinQue := MutexState.Shape.inQue h
  constructor
  · intro hnone hown
    have hbit : bitTest s.flags .mtxLocked = false := by
      rw [MutexState.Shape.mtxLocked h, hown]
      rfl
    constructor
    · by_contra hque
      obtain ⟨d, hd⟩ := Option.ne_none_iff_exists'.mp hque
      have hwaits := hnone hbit d
      rw [MutexPlace.waits_eq, (hinQue d).mpr hd,
        hholds.ne' (by rw [hown]; exact (Option.some_ne_none d).symm)] at hwaits
      simp at hwaits
    · by_contra hl
      obtain ⟨d, hd⟩ := List.exists_mem_of_ne_nil _ hl
      have hwaits := hnone hbit d
      rw [MutexPlace.waits_eq, (MutexState.Shape.queued h d).mpr hd] at hwaits
      simp at hwaits
  · intro hidle hbit c
    obtain ⟨hque, hl⟩ := hidle (eq_none_of_bit (MutexState.Shape.mtxLocked h) hbit)
    have hqueued : (s.place c).queued = false := by
      refine Bool.eq_false_iff.mpr fun hc => ?_
      have hmem := (MutexState.Shape.queued h c).mp hc
      rw [hl] at hmem
      exact absurd hmem List.not_mem_nil
    rw [MutexPlace.waits_eq, hqueued,
      hinQue.ne' (by rw [hque]; exact (Option.some_ne_none c).symm)]
    rfl

/-- A step that frees the mutex frees it. -/
theorem MutexState.View.freed {a : MutexAction ν} (h : s.View x) (ha : s.Frees a)
    (hs : mutexStep s a = some s') : s'.View ⟨none, x.que, x.waiters⟩ := by
  cases a with
  | exchange c seen =>
    obtain ⟨hc, hflags, hempty⟩ := ha
    obtain ⟨own, que, l⟩ := x
    have hown : own = some c := MutexState.Shape.holds h |>.own_eq (by rw [hc]; rfl)
    subst hown
    rw [hflags] at hempty
    simp only [mutexStep, hc, unlockTurn_of_empty hempty, MutexState.exchange, hflags, if_true]
      at hs
    cases hs
    rw [← hflags]
    exact MutexState.Shape.freeMutex h hc
  | lock => exact absurd ha id
  | unlock => exact absurd ha id
  | push => exact absurd ha id
  | pop => exact absurd ha id
  | post => exact absurd ha id
  | resume => exact absurd ha id

/-- **The one way to lose a waiter**: no coroutine ever waits for a free mutex exactly when no step
of the run frees the mutex while a coroutine is being queued. -/
theorem mutex_strands_iff {next : Option ν → Option ν} (actions : List (MutexAction ν))
    (h : (mutex next).run (mutex next).start actions = some s) :
    (mutex next).Throughout MutexState.NoneStranded (mutex next).start actions ↔
      (mutex next).Meets (fun s a => ¬s.PassesBy a) (mutex next).start actions := by
  refine System.throughout_iff (I := fun s => ∃ x, MutexState.View s x ∧ x.Idle) ?_ ?_ ?_ actions
    ⟨⟨none, none, []⟩, mutex_start next, fun _ => ⟨rfl, rfl⟩⟩ h
  · intro s hs
    obtain ⟨x, hx, hidle⟩ := hs
    exact hx.noneStranded_iff.mpr hidle
  · intro s a s' hI hok hs
    obtain ⟨x, hx, hidle⟩ := hI
    obtain ⟨y, hturn, hy⟩ := mutex_step hx hs
    refine ⟨y, hy, hturn.idle hidle fun hfrees => ?_⟩
    have hbit : bitTest s.flags .queLocked = false :=
      Bool.eq_false_iff.mpr fun hbit => hok ⟨hfrees, hbit⟩
    have hque := eq_none_of_bit (MutexState.Shape.queLocked hx) hbit
    refine ⟨hque, ?_⟩
    cases a with
    | exchange c seen =>
      have hempty := MutexState.Shape.notEmpty hx
      rw [hque, Option.map_none, hfrees.2.2] at hempty
      exact List.isEmpty_iff.mp (by simpa [NotEmptyOk] using hempty)
    | lock => exact absurd hfrees id
    | unlock => exact absurd hfrees id
    | push => exact absurd hfrees id
    | pop => exact absurd hfrees id
    | post => exact absurd hfrees id
    | resume => exact absurd hfrees id
  · intro s a s' hI hbad hs hnone
    obtain ⟨x, hx, hidle⟩ := hI
    obtain ⟨hfrees, hbit⟩ := not_not.mp hbad
    have hidle' := ((hx.freed hfrees hs).noneStranded_iff.mp hnone) rfl
    obtain ⟨d, hd⟩ := exists_of_bit (MutexState.Shape.queLocked hx) hbit
    exact absurd (hd.symm.trans hidle'.1) (Option.some_ne_none d)

/-- The owner unlocks between the two exchanges of a coroutine that is being queued. -/
def passedByRun : List (MutexAction Bool) :=
  [.lock false 0, .exchange false 0, .lock true 1, .unlock false 1, .exchange true 0,
    .exchange false 3, .exchange false 0, .push true 2, .exchange true 0]

theorem passedByRun_places :
    ((mutex fun _ => none).run (mutex fun _ => none).start passedByRun).map
      (fun s => (s.place false, s.place true, s.flags)) = some (.outside, .suspended, 4) := by
  rfl

/-- In this run a waiter is stranded, in that of the hand-over none is. -/
theorem mutex_strands_iff_passedBy :
    ¬(mutex fun _ : Option Bool => none).Throughout MutexState.NoneStranded
        (mutex fun _ => none).start passedByRun ∧
      (mutex fun _ : Option Bool => none).Throughout MutexState.NoneStranded
        (mutex fun _ => none).start handOverRun := by
  obtain ⟨s, hs, -⟩ := Option.map_eq_some_iff.mp passedByRun_places
  obtain ⟨t, ht, -⟩ := Option.map_eq_some_iff.mp handOverRun_places
  refine ⟨fun hnone => ?_, (mutex_strands_iff handOverRun ht).mpr (by decide)⟩
  have hpasses : ¬(mutex fun _ : Option Bool => none).Meets (fun s a => ¬s.PassesBy a)
      (mutex fun _ => none).start passedByRun := by decide
  exact hpasses ((mutex_strands_iff passedByRun hs).mp hnone)

end

end Rojcpp.Tinyasync
