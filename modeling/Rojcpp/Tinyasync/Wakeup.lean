import Rojcpp.Lib.System
import Rojcpp.Lib.Threads

/-!
# Waking the threads of a context

A context with several threads: each is in `IoCtx::run`, or outside it.  A thread that finds no task
sleeps in `epoll_wait`.  `m_wakeup_handle` is an event descriptor that is always readable, and is
registered for one shot: `epoll_wait` reports it to one thread, once each time `wakeup_a_thread` has
armed it.  Whoever posts a task while a thread sleeps arms it, and a thread that it has woken arms
it again when there is more to do than it will do itself.

Each stretch of code under `m_que_lock` is one step, and so is every look at a member without the
lock.  The queue of tasks is a list, as `queue_refines` allows.  Which events `epoll_wait` returns,
and whether the front of the time queue is over time, is up to the environment; a thread that finds
a node over time posts its task while it has the lock, and stays in `lock` with it.  That
`epoll_wait` or `epoll_ctl` fails, so that `run` throws, is left out.

`wakeup_safe` says that no task is lost and none waits for a sleeping thread that nothing will wake,
`wakeup_abort` that an abort reaches every thread that sleeps.
-/

namespace Rojcpp.Tinyasync

open Function Rojcpp.Lib

/-! ### The code -/

/-- What `data.ptr` of a reported event is: below `CallbackGuard`, or a callback. -/
inductive LoopEvent where
  | wakeup
  | callback
  deriving DecidableEq, Repr

/-- The overview of the events: `effective_event` and `wakeup_event`. -/
def overview : List LoopEvent → ℕ × ℕ
  | [] => (0, 0)
  | .wakeup :: rest => (if rest.contains .callback then 1 else 0, 1)
  | .callback :: rest => (1, if rest.contains .wakeup then 1 else 0)

/-- Where a thread is: outside `run`; before `m_que_lock.lock()`; in `lock` with the lock in its
hands; in the callback of a task; in `epoll_wait`; behind it; behind the lock that it takes then,
with the size of the task queue; between the two conditions on waking another thread; and before or
in the callbacks of the events. -/
inductive LoopPlace (ν : Type*) where
  | outside
  | top
  | stuck
  | task (task : ν)
  | polling
  | polled (events : List LoopEvent)
  | counted (events : List LoopEvent) (taskQueueSize : ℕ)
  | checking (events : List LoopEvent) (taskQueueSize : ℕ)
  | handling (events : List LoopEvent)
  deriving DecidableEq, Repr

/-- A thread, and whether it is in `wakeup_a_thread`, before `epoll_ctl`. -/
structure LoopThread (ν : Type*) where
  place : LoopPlace ν
  arming : Bool
  deriving DecidableEq, Repr

/-- The code of the user runs: tasks are posted, and an abort is requested, from there. -/
def LoopPlace.user {ν : Type*} : LoopPlace ν → Bool
  | .outside => true
  | .task _ => true
  | .handling events => events.contains .callback
  | _ => false

/-- A context with its threads.  No step reads the last two fields: all tasks that were posted so
far, and all that were taken from the queue, with whether they were run. -/
structure LoopState (τ ν : Type*) where
  lockHeld : Bool
  threadWaiting : ℕ
  taskQueueSize : ℕ
  taskQueue : List ν
  abortRequested : Bool
  armed : Bool
  threads : τ → LoopThread ν
  posted : List ν
  taken : List (ν × Bool)

/-- The steps: a thread calls `run`, posts a task, requests an abort, arms the event descriptor,
takes the lock at the top of the loop (with whether a time node is due), returns from its task,
returns from `epoll_wait`, takes the lock again, looks at `m_thread_waiting` and at
`m_abort_requested`, and is done with the events. -/
inductive LoopAction (τ ν : Type*) where
  | run (t : τ)
  | post (t : τ) (task : ν)
  | requestAbort (t : τ)
  | arm (t : τ)
  | enter (t : τ) (due : Bool)
  | finish (t : τ)
  | poll (t : τ) (events : List LoopEvent)
  | count (t : τ)
  | readWaiting (t : τ)
  | readAbort (t : τ)
  | handled (t : τ)
  deriving DecidableEq, Repr

section
variable {τ ν : Type*} [DecidableEq τ] [DecidableEq ν]

/-- A thread comes to another place, and into `wakeup_a_thread` or not. -/
def LoopState.move (s : LoopState τ ν) (t : τ) (p : LoopPlace ν) (arming : Bool) :
    LoopState τ ν :=
  { s with threads := update s.threads t ⟨p, arming⟩ }

/-- `run` under the lock, from the time queue to the end of the critical section. -/
def LoopState.enter (s : LoopState τ ν) (t : τ) (due : Bool) : LoopState τ ν :=
  if due then { s with lockHeld := true }.move t .stuck false
  else
    let popped := { s with taskQueue := s.taskQueue.tail }
    match s.taskQueue.head? with
    | some node =>
      if s.abortRequested then
        { popped with taken := s.taken ++ [(node, false)] }.move t .outside false
      else
        { popped with
            taskQueueSize := s.taskQueueSize - 1
            taken := s.taken ++ [(node, true)] }.move t (.task node) false
    | none =>
      if s.abortRequested then popped.move t .outside false
      else { popped with threadWaiting := s.threadWaiting + 1 }.move t .polling false

/-- One step. -/
def loopStep (s : LoopState τ ν) : LoopAction τ ν → Option (LoopState τ ν)
  | .run t => if s.threads t = ⟨.outside, false⟩ then some (s.move t .top false) else none
  | .post t task =>
    let th := s.threads t
    if s.lockHeld = false ∧ th.place.user = true ∧ th.arming = false ∧ task ∉ s.taskQueue then
      some ({ s with
        taskQueue := s.taskQueue ++ [task]
        taskQueueSize := s.taskQueueSize + 1
        posted := s.posted ++ [task] }.move t th.place (decide (0 < s.threadWaiting)))
    else none
  | .requestAbort t =>
    let th := s.threads t
    if s.lockHeld = false ∧ th.place.user = true ∧ th.arming = false then
      some ({ s with abortRequested := true }.move t th.place (decide (0 < s.threadWaiting)))
    else none
  | .arm t =>
    let th := s.threads t
    if th.arming = true then some ({ s with armed := true }.move t th.place false) else none
  | .enter t due =>
    if s.lockHeld = false ∧ s.threads t = ⟨.top, false⟩ then some (s.enter t due) else none
  | .finish t =>
    match s.threads t with
    | ⟨.task _, false⟩ => some (s.move t .top false)
    | _ => none
  | .poll t events =>
    if s.threads t = ⟨.polling, false⟩ ∧ (events.contains .wakeup = true → s.armed = true) then
      some ({ s with armed := s.armed && !events.contains .wakeup }.move t (.polled events) false)
    else none
  | .count t =>
    match s.threads t with
    | ⟨.polled events, false⟩ =>
      if s.lockHeld = false then
        some ({ s with threadWaiting := s.threadWaiting - 1 }.move t
          (.counted events s.taskQueueSize) false)
      else none
    | _ => none
  | .readWaiting t =>
    match s.threads t with
    | ⟨.counted events size, false⟩ =>
      some (s.move t (if s.threadWaiting ≠ 0 then .checking events size else .handling events)
        false)
    | _ => none
  | .readAbort t =>
    match s.threads t with
    | ⟨.checking events size, false⟩ =>
      let seen := overview events
      some (s.move t (.handling events)
        (s.abortRequested || decide (seen.2 ≠ 0 ∧ 1 < size + seen.1)))
    | _ => none
  | .handled t =>
    match s.threads t with
    | ⟨.handling _, false⟩ => some (s.move t .top false)
    | _ => none

/-- A new context, whose event descriptor is armed, with all threads outside `run`. -/
def loop (τ ν : Type*) [DecidableEq τ] [DecidableEq ν] :
    System (LoopState τ ν) (LoopAction τ ν) :=
  ⟨⟨false, 0, 0, [], false, true, fun _ => ⟨.outside, false⟩, [], []⟩, loopStep⟩

end

/-! ### Who sleeps, who comes, who wakes -/

section
variable {ν : Type*}

/-- The thread sleeps in `epoll_wait`. -/
def LoopPlace.sleeps : LoopPlace ν → Bool
  | .polling => true
  | _ => false

/-- The thread is counted in `m_thread_waiting`. -/
def LoopPlace.waiting : LoopPlace ν → ℕ
  | .polling => 1
  | .polled _ => 1
  | _ => 0

/-- The thread comes to the queue before it runs code of the user: it takes one task. -/
def LoopPlace.comes : LoopPlace ν → ℕ
  | .top => 1
  | .polled events => if events.contains .callback then 0 else 1
  | .counted events _ => if events.contains .callback then 0 else 1
  | .checking events _ => if events.contains .callback then 0 else 1
  | .handling events => if events.contains .callback then 0 else 1
  | _ => 0

/-- The thread was woken, and will pass that on as far as the source asks it to. -/
def LoopPlace.woken : LoopPlace ν → Bool
  | .polled events => events.contains .wakeup
  | .counted events _ => events.contains .wakeup
  | .checking events _ => events.contains .wakeup
  | _ => false

/-- The thread was woken, and has not counted the tasks yet, or there was more to do than it will do
itself. -/
def LoopPlace.owes : LoopPlace ν → Bool
  | .polled events => events.contains .wakeup
  | .counted events size => decide ((overview events).2 ≠ 0 ∧ 1 < size + (overview events).1)
  | .checking events size => decide ((overview events).2 ≠ 0 ∧ 1 < size + (overview events).1)
  | _ => false

/-- The same, or the thread is in `wakeup_a_thread`. -/
def LoopThread.owes (th : LoopThread ν) : Bool := th.arming || th.place.owes

/-- The thread was woken, and there is more to do than it will do itself: with the size that it has
read, or with that of now if it has still to read it. -/
def LoopPlace.passesOn (taskQueueSize : ℕ) : LoopPlace ν → Bool
  | .polled events =>
    decide ((overview events).2 ≠ 0 ∧ 1 < taskQueueSize + (overview events).1)
  | .counted events size => decide ((overview events).2 ≠ 0 ∧ 1 < size + (overview events).1)
  | .checking events size => decide ((overview events).2 ≠ 0 ∧ 1 < size + (overview events).1)
  | _ => false

/-- The thread is about to wake another one after an abort. -/
def LoopThread.spreads (th : LoopThread ν) : Bool := th.arming || th.place.woken

theorem overview_wakeup (events : List LoopEvent) :
    (overview events).2 ≠ 0 ↔ events.contains .wakeup = true := by
  cases events with
  | nil => decide
  | cons e rest =>
    cases e with
    | wakeup => exact iff_of_true Nat.one_ne_zero (List.contains_iff_mem.mpr List.mem_cons_self)
    | callback =>
      rw [overview, List.contains_cons]
      cases rest.contains .wakeup <;> decide

theorem overview_callback (events : List LoopEvent) :
    (overview events).1 = if events.contains .callback then 1 else 0 := by
  cases events with
  | nil => rfl
  | cons e rest =>
    rw [List.contains_cons]
    cases e with
    | wakeup => rfl
    | callback => rfl

/-- A thread that has no more to do than it will do itself comes for the task. -/
theorem le_comes {events : List LoopEvent} {size n : ℕ} (hmore : ¬1 < size + (overview events).1)
    (hn : n ≤ size) : n ≤ if events.contains .callback then 0 else 1 := by
  rw [overview_callback] at hmore
  split at hmore
  · rw [if_pos ‹_›]
    omega
  · rw [if_neg ‹_›]
    omega

variable {τ : Type*}

/-- The thread is about to wake another one for the tasks. -/
def LoopState.wakes (s : LoopState τ ν) (t : τ) : Bool :=
  (s.threads t).arming || (s.threads t).place.passesOn s.taskQueueSize

/-- A thread sleeps. -/
def LoopState.Sleeps (s : LoopState τ ν) : Prop := ∃ t, (s.threads t).place.sleeps = true

/-- While a thread sleeps, the event descriptor is armed, a thread arms it or has still to count the
tasks, or every task has a thread that comes for it. -/
def LoopState.Awake [Fintype τ] (s : LoopState τ ν) : Prop :=
  s.Sleeps → s.armed = true ∨ (∃ t, (s.threads t).owes = true) ∨
    s.taskQueue.length ≤ ∑ t, (s.threads t).place.comes

/-- While a thread sleeps after an abort, the event descriptor is armed or a thread is about to arm
it. -/
def LoopState.Spreads (s : LoopState τ ν) : Prop :=
  s.abortRequested = true → s.Sleeps → s.armed = true ∨ ∃ t, (s.threads t).spreads = true

/-- What holds in every state of a context. -/
structure LoopState.Safe [Fintype τ] (s : LoopState τ ν) : Prop where
  waiting : s.threadWaiting = ∑ t, (s.threads t).place.waiting
  size : s.taskQueue.length ≤ s.taskQueueSize
  sizeEq : s.abortRequested = false → s.taskQueueSize = s.taskQueue.length
  posted : s.posted = s.taken.map Prod.fst ++ s.taskQueue
  ran : s.abortRequested = false → ∀ p ∈ s.taken, p.2 = true
  awake : s.lockHeld = true ∨ s.Awake
  spreads : s.lockHeld = true ∨ s.Spreads

variable [Fintype τ] [DecidableEq τ] {s s' : LoopState τ ν} {t : τ} {th : LoopThread ν}

/-- A counter of threads at some places follows a thread that moves. -/
theorem sum_move (g : LoopPlace ν → ℕ) (threads : τ → LoopThread ν) (t : τ) (th : LoopThread ν) :
    ∑ u, g (update threads t th u).place + g (threads t).place =
      ∑ u, g (threads u).place + g th.place :=
  sum_update (fun th => g th.place) threads t th

omit [Fintype τ] in
theorem sleeps_of_update (hth : th.place.sleeps = true → (s.threads t).place.sleeps = true)
    (h : ∃ u, (update s.threads t th u).place.sleeps = true) : s.Sleeps := by
  obtain ⟨u, hu⟩ := h
  by_cases hut : u = t
  · rw [hut, update_self] at hu
    exact ⟨t, hth hu⟩
  · rw [update_of_ne hut] at hu
    exact ⟨u, hu⟩

omit [DecidableEq τ] in
/-- Nobody sleeps when no thread is counted. -/
theorem LoopState.Safe.not_sleeps (h : s.Safe) (hzero : s.threadWaiting = 0) : ¬s.Sleeps := by
  intro hsleeps
  obtain ⟨u, hu⟩ := hsleeps
  have hle := le_sum (fun u => (s.threads u).place.waiting) u
  have hone : (s.threads u).place.waiting = 1 := by
    cases hplace : (s.threads u).place <;> rw [hplace] at hu <;> first | rfl | cases hu
  have hwaiting := h.waiting
  omega

omit [Fintype τ] in
/-- A property of the threads that are about to wake others, when one of them moves: what the mover
was about to do is done, or still to be done. -/
theorem exists_update {g : LoopThread ν → Bool} {A : Prop}
    (h : ∃ u, g (s.threads u) = true) (hth : g (s.threads t) = true → g th = true ∨ A) :
    (∃ u, g (update s.threads t th u) = true) ∨ A := by
  obtain ⟨u, hu⟩ := h
  by_cases hut : u = t
  · obtain hg | hA := hth (hut ▸ hu)
    · exact .inl ⟨t, by rw [update_self]; exact hg⟩
    · exact .inr hA
  · exact .inl ⟨u, by rw [update_of_ne hut]; exact hu⟩

/-- **One thread moves**: nobody falls asleep, and what wakes others or comes for the tasks is kept,
or is not needed any more. -/
theorem LoopState.Awake.change (h : s.Awake) (hthreads : s'.threads = update s.threads t th)
    (hsleeps : th.place.sleeps = true → (s.threads t).place.sleeps = true)
    (harmed : s.armed = true → s'.armed = true ∨ th.owes = true)
    (howes : (s.threads t).owes = true → th.owes = true ∨ (s'.armed = true ∨ ¬s.Sleeps ∨
      s'.taskQueue.length ≤ th.place.comes))
    (hcomes : th.owes = true ∨ ¬s.Sleeps ∨
      s'.taskQueue.length + (s.threads t).place.comes ≤ s.taskQueue.length + th.place.comes) :
    s'.Awake := by
  intro hs'
  have hsleep : s.Sleeps := sleeps_of_update hsleeps (hthreads ▸ hs')
  have hself : th.owes = true → ∃ u, (s'.threads u).owes = true := by
    intro hth
    exact ⟨t, by rw [hthreads, update_self]; exact hth⟩
  obtain harm | howe | hlen := h hsleep
  · obtain harm' | hth := harmed harm
    · exact .inl harm'
    · exact .inr (.inl (hself hth))
  · rw [hthreads]
    obtain howe' | harm' | hnot | hlen := exists_update howe howes
    · exact .inr (.inl howe')
    · exact .inl harm'
    · exact absurd hsleep hnot
    · refine .inr (.inr (hlen.trans ?_))
      have hle := le_sum (fun u => (update s.threads t th u).place.comes) t
      rwa [update_self] at hle
  · obtain hth | hnot | hle := hcomes
    · exact .inr (.inl (hself hth))
    · exact absurd hsleep hnot
    · have hsum := sum_move LoopPlace.comes s.threads t th
      rw [hthreads]
      omega

omit [Fintype τ] in
/-- The same for an abort. -/
theorem LoopState.Spreads.change (h : s.Spreads) (hthreads : s'.threads = update s.threads t th)
    (habort : s'.abortRequested = true → s.abortRequested = true ∨ ¬s.Sleeps ∨ th.spreads = true)
    (hsleeps : th.place.sleeps = true → (s.threads t).place.sleeps = true)
    (harmed : s.armed = true → s'.armed = true ∨ th.spreads = true)
    (hspreads : (s.threads t).spreads = true → th.spreads = true ∨ (s'.armed = true ∨ ¬s.Sleeps ∨
      s'.abortRequested = false)) : s'.Spreads := by
  intro hab hs'
  have hsleep : s.Sleeps := sleeps_of_update hsleeps (hthreads ▸ hs')
  have hself : th.spreads = true → ∃ u, (s'.threads u).spreads = true := by
    intro hth
    exact ⟨t, by rw [hthreads, update_self]; exact hth⟩
  obtain hab' | hnot | hth := habort hab
  · obtain harm | hspread := h hab' hsleep
    · exact (harmed harm).imp id hself
    · rw [hthreads]
      obtain hspread' | harm' | hnot | hno := exists_update hspread hspreads
      · exact .inr hspread'
      · exact .inl harm'
      · exact absurd hsleep hnot
      · rw [hab] at hno
        cases hno
  · exact absurd hsleep hnot
  · exact .inr (hself hth)

/-! ### Every step -/

/-- A thread goes on without the queue, and the event descriptor is armed or reported. -/
theorem LoopState.Safe.moved (h : s.Safe) (armed : Bool) (p : LoopPlace ν) (arming : Bool)
    (hwaiting : p.waiting = (s.threads t).place.waiting)
    (hsleeps : p.sleeps = true → (s.threads t).place.sleeps = true)
    (harmed : s.armed = true → armed = true ∨
      LoopThread.owes ⟨p, arming⟩ = true ∧ LoopThread.spreads ⟨p, arming⟩ = true)
    (howes : (s.threads t).owes = true → LoopThread.owes ⟨p, arming⟩ = true ∨
      (armed = true ∨ ¬s.Sleeps ∨ s.taskQueue.length ≤ p.comes))
    (hspreads : (s.threads t).spreads = true → LoopThread.spreads ⟨p, arming⟩ = true ∨
      (armed = true ∨ ¬s.Sleeps ∨ s.abortRequested = false))
    (hcomes : (s.threads t).place.comes ≤ p.comes) :
    ({ s with armed := armed }.move t p arming).Safe where
  waiting := by
    have hsum := sum_move LoopPlace.waiting s.threads t ⟨p, arming⟩
    have hold := h.waiting
    simp only [hwaiting] at hsum
    show s.threadWaiting = _
    rw [hold]
    exact (Nat.add_right_cancel hsum).symm
  size := h.size
  sizeEq := h.sizeEq
  posted := h.posted
  ran := h.ran
  awake := h.awake.imp id fun hawake =>
    hawake.change rfl hsleeps (fun ha => (harmed ha).imp id And.left) howes
      (.inr (.inr (Nat.add_le_add_left hcomes _)))
  spreads := h.spreads.imp id fun hspread =>
    hspread.change rfl .inl hsleeps (fun ha => (harmed ha).imp id And.right) hspreads

/-- A thread calls `run`. -/
theorem LoopState.Safe.run (h : s.Safe) (hth : s.threads t = ⟨.outside, false⟩) :
    (s.move t .top false).Safe := by
  refine h.moved s.armed .top false ?_ nofun .inl ?_ ?_ ?_ <;> rw [hth]
  · rfl
  · exact nofun
  · exact nofun
  · exact Nat.zero_le _

/-- `epoll_ctl` in `wakeup_a_thread`. -/
theorem LoopState.Safe.arm (h : s.Safe) :
    ({ s with armed := true }.move t (s.threads t).place false).Safe :=
  h.moved true _ false rfl id (fun _ => .inl rfl) (fun _ => .inr (.inl rfl))
    (fun _ => .inr (.inl rfl)) le_rfl

/-- The callback of a task returns. -/
theorem LoopState.Safe.finish (h : s.Safe) {task : ν} (hth : s.threads t = ⟨.task task, false⟩) :
    (s.move t .top false).Safe := by
  refine h.moved s.armed .top false ?_ nofun .inl ?_ ?_ ?_ <;> rw [hth]
  · rfl
  · exact nofun
  · exact nofun
  · exact Nat.zero_le _

/-- `epoll_wait` returns. -/
theorem LoopState.Safe.poll (h : s.Safe) (events : List LoopEvent)
    (hth : s.threads t = ⟨.polling, false⟩) :
    ({ s with armed := s.armed && !events.contains .wakeup }.move t (.polled events) false).Safe
    := by
  refine h.moved _ (.polled events) false ?_ nofun ?_ ?_ ?_ ?_
  · rw [hth]
    rfl
  · intro harmed
    cases hev : events.contains .wakeup with
    | true =>
      simp only [LoopThread.owes, LoopThread.spreads, LoopPlace.owes, LoopPlace.woken, hev,
        Bool.or_true, and_self, or_true]
    | false =>
      rw [harmed]
      exact .inl rfl
  · rw [hth]
    exact nofun
  · rw [hth]
    exact nofun
  · rw [hth]
    exact Nat.zero_le _

/-- The first condition on waking another thread. -/
theorem LoopState.Safe.readWaiting (h : s.Safe) {events : List LoopEvent} {size : ℕ}
    (hth : s.threads t = ⟨.counted events size, false⟩) :
    (s.move t (if s.threadWaiting ≠ 0 then .checking events size else .handling events)
      false).Safe := by
  by_cases hwaiting : s.threadWaiting ≠ 0
  · rw [if_pos hwaiting]
    refine h.moved s.armed _ false ?_ nofun .inl ?_ ?_ ?_ <;> rw [hth]
    · rfl
    · exact .inl
    · exact .inl
    · exact le_rfl
  · rw [if_neg hwaiting]
    have hnot := h.not_sleeps (not_not.mp hwaiting)
    refine h.moved s.armed _ false ?_ nofun .inl ?_ ?_ ?_
    · rw [hth]
      rfl
    · exact fun _ => .inr (.inr (.inl hnot))
    · exact fun _ => .inr (.inr (.inl hnot))
    · rw [hth]
      exact le_rfl

/-- The second condition on waking another thread. -/
theorem LoopState.Safe.readAbort (h : s.Safe) {events : List LoopEvent} {size : ℕ}
    (hth : s.threads t = ⟨.checking events size, false⟩) :
    (s.move t (.handling events) (s.abortRequested ||
      decide ((overview events).2 ≠ 0 ∧ 1 < size + (overview events).1))).Safe := by
  refine h.moved s.armed _ _ ?_ nofun .inl ?_ ?_ ?_ <;> rw [hth]
  · rfl
  · intro howes
    have howes : decide ((overview events).2 ≠ 0 ∧ 1 < size + (overview events).1) = true :=
      howes
    rw [howes]
    exact .inl (by simp [LoopThread.owes])
  · intro _
    cases habort : s.abortRequested with
    | true => exact .inl (by simp [LoopThread.spreads])
    | false => exact .inr (.inr (.inr rfl))
  · exact le_rfl

/-- The callbacks of the events return. -/
theorem LoopState.Safe.handled (h : s.Safe) {events : List LoopEvent}
    (hth : s.threads t = ⟨.handling events, false⟩) : (s.move t .top false).Safe := by
  refine h.moved s.armed .top false ?_ nofun .inl ?_ ?_ ?_ <;> rw [hth]
  · rfl
  · exact nofun
  · exact nofun
  · show (if events.contains .callback then 0 else 1) ≤ 1
    split <;> omega

omit [DecidableEq τ] in
/-- `wakeup_a_thread` is called if a thread is counted. -/
theorem LoopState.Safe.arming (h : s.Safe) (p : LoopPlace ν) :
    LoopThread.owes ⟨p, decide (0 < s.threadWaiting)⟩ = true ∧
      LoopThread.spreads ⟨p, decide (0 < s.threadWaiting)⟩ = true ∨ ¬s.Sleeps := by
  by_cases hpos : 0 < s.threadWaiting
  · simp only [LoopThread.owes, LoopThread.spreads, hpos, decide_true, Bool.true_or, and_self,
      true_or]
  · exact .inr (h.not_sleeps (Nat.eq_zero_of_not_pos hpos))

/-- A thread that stays where it is keeps the number of those that are counted. -/
theorem LoopState.Safe.waiting_stay (h : s.Safe) (arming : Bool) :
    s.threadWaiting = ∑ u, (update s.threads t ⟨(s.threads t).place, arming⟩ u).place.waiting := by
  have hsum := sum_move LoopPlace.waiting s.threads t ⟨(s.threads t).place, arming⟩
  rw [h.waiting]
  exact (Nat.add_right_cancel hsum).symm

/-- `post_task`. -/
theorem LoopState.Safe.post (h : s.Safe) (task : ν) :
    ({ s with
      taskQueue := s.taskQueue ++ [task]
      taskQueueSize := s.taskQueueSize + 1
      posted := s.posted ++ [task] }.move t (s.threads t).place
        (decide (0 < s.threadWaiting))).Safe where
  waiting := h.waiting_stay _
  size := by
    show (s.taskQueue ++ [task]).length ≤ s.taskQueueSize + 1
    rw [List.length_append, List.length_singleton]
    exact Nat.succ_le_succ h.size
  sizeEq habort := by
    show s.taskQueueSize + 1 = (s.taskQueue ++ [task]).length
    rw [List.length_append, List.length_singleton, h.sizeEq habort]
  posted := by
    show s.posted ++ [task] = s.taken.map Prod.fst ++ (s.taskQueue ++ [task])
    rw [h.posted, List.append_assoc]
  ran := h.ran
  awake := h.awake.imp id fun hawake => by
    have harm := h.arming (s.threads t).place
    refine hawake.change rfl id .inl (fun hw => ?_) (harm.imp And.left .inl)
    obtain hboth | hnot := harm
    · exact .inl hboth.1
    · exact .inr (.inr (.inl hnot))
  spreads := h.spreads.imp id fun hspread => by
    refine hspread.change rfl .inl id .inl fun hw => ?_
    obtain hboth | hnot := h.arming (s.threads t).place
    · exact .inl hboth.2
    · exact .inr (.inr (.inl hnot))

/-- `request_abort`. -/
theorem LoopState.Safe.requestAbort (h : s.Safe) :
    ({ s with abortRequested := true }.move t (s.threads t).place
      (decide (0 < s.threadWaiting))).Safe where
  waiting := h.waiting_stay _
  size := h.size
  sizeEq := nofun
  posted := h.posted
  ran := nofun
  awake := h.awake.imp id fun hawake => by
    refine hawake.change rfl id .inl (fun hw => ?_) (.inr (.inr le_rfl))
    obtain hboth | hnot := h.arming (s.threads t).place
    · exact .inl hboth.1
    · exact .inr (.inr (.inl hnot))
  spreads := h.spreads.imp id fun hspread => by
    have harm := h.arming (s.threads t).place
    refine hspread.change rfl (fun _ => ?_) id .inl fun hw => ?_
    · obtain hboth | hnot := harm
      · exact .inr (.inr hboth.2)
      · exact .inr (.inl hnot)
    · obtain hboth | hnot := harm
      · exact .inl hboth.2
      · exact .inr (.inr (.inl hnot))

/-- The critical section at the top of the loop. -/
theorem LoopState.Safe.enter (h : s.Safe) (due : Bool) (hth : s.threads t = ⟨.top, false⟩) :
    (s.enter t due).Safe := by
  have hmove : ∀ p : LoopPlace ν, ∑ u, (update s.threads t ⟨p, false⟩ u).place.waiting =
      s.threadWaiting + p.waiting := by
    intro p
    have hsum := sum_move LoopPlace.waiting s.threads t ⟨p, false⟩
    rw [hth] at hsum
    rw [h.waiting]
    exact hsum
  have hnone : (s.threads t).owes = false ∧ (s.threads t).spreads = false := by
    rw [hth]
    exact ⟨rfl, rfl⟩
  have hcomes : (s.threads t).place.comes = 1 := by
    rw [hth]
    rfl
  rw [LoopState.enter]
  by_cases hdue : due = true
  · rw [if_pos hdue]
    exact ⟨(hmove .stuck).symm, h.size, h.sizeEq, h.posted, h.ran, .inl rfl, .inl rfl⟩
  rw [if_neg hdue]
  cases hl : s.taskQueue with
  | nil =>
    have hposted := h.posted
    rw [hl] at hposted
    cases habort : s.abortRequested with
    | true =>
      refine ⟨(hmove .outside).symm, Nat.zero_le _, fun hno => ?_, hposted, fun hno => ?_,
        .inr fun _ => .inr (.inr (Nat.zero_le _)), ?_⟩
      · exact absurd (show true = false from hno) (by decide)
      · exact absurd (show true = false from hno) (by decide)
      · refine h.spreads.imp id fun hspread =>
          hspread.change rfl (fun _ => .inl habort) nofun .inl fun hs => ?_
        rw [hnone.2] at hs
        cases hs
    | false =>
      refine ⟨(hmove .polling).symm, Nat.zero_le _, fun _ => ?_, hposted, fun _ => h.ran habort,
        .inr fun _ => .inr (.inr (Nat.zero_le _)), .inr fun hab => ?_⟩
      · show s.taskQueueSize = 0
        rw [h.sizeEq habort, hl]
        rfl
      · exact absurd (show false = true from hab) (by decide)
  | cons node rest =>
    have hposted := h.posted
    have hsize := h.size
    rw [hl] at hposted hsize
    rw [List.length_cons] at hsize
    cases habort : s.abortRequested with
    | true =>
      refine ⟨(hmove .outside).symm, Nat.le_of_succ_le hsize, fun hno => ?_, ?_, fun hno => ?_,
        h.awake.imp id fun hawake => ?_, h.spreads.imp id fun hspread => ?_⟩
      · exact absurd (show true = false from hno) (by decide)
      · show s.posted = (s.taken ++ [(node, false)]).map Prod.fst ++ rest
        rw [hposted, List.map_append, List.append_assoc]
        rfl
      · exact absurd (show true = false from hno) (by decide)
      · refine hawake.change rfl nofun .inl (fun hw => ?_) (.inr (.inr ?_))
        · rw [hnone.1] at hw
          cases hw
        · rw [hcomes, hl]
          exact le_rfl
      · refine hspread.change rfl (fun _ => .inl habort) nofun .inl fun hs => ?_
        rw [hnone.2] at hs
        cases hs
    | false =>
      have heq := h.sizeEq habort
      rw [hl, List.length_cons] at heq
      refine ⟨(hmove (.task node)).symm, ?_, fun _ => ?_, ?_, fun _ p hp => ?_,
        h.awake.imp id fun hawake => ?_, .inr fun hab => ?_⟩
      · show rest.length ≤ s.taskQueueSize - 1
        omega
      · show s.taskQueueSize - 1 = rest.length
        omega
      · show s.posted = (s.taken ++ [(node, true)]).map Prod.fst ++ rest
        rw [hposted, List.map_append, List.append_assoc]
        rfl
      · obtain hp | hp := List.mem_append.mp hp
        · exact h.ran habort p hp
        · rw [List.mem_singleton.mp hp]
      · refine hawake.change rfl nofun .inl (fun hw => ?_) (.inr (.inr ?_))
        · rw [hnone.1] at hw
          cases hw
        · rw [hcomes, hl]
          exact le_rfl
      · exact absurd (show false = true from hab) (by decide)

/-- The critical section behind `epoll_wait`. -/
theorem LoopState.Safe.count (h : s.Safe) {events : List LoopEvent}
    (hth : s.threads t = ⟨.polled events, false⟩) :
    ({ s with threadWaiting := s.threadWaiting - 1 }.move t (.counted events s.taskQueueSize)
      false).Safe := by
  refine ⟨?_, h.size, h.sizeEq, h.posted, h.ran, h.awake.imp id fun hawake => ?_,
    h.spreads.imp id fun hspread => ?_⟩
  · have hsum := sum_move LoopPlace.waiting s.threads t ⟨.counted events s.taskQueueSize, false⟩
    rw [hth] at hsum
    show s.threadWaiting - 1 = _
    rw [h.waiting]
    exact (Nat.eq_sub_of_add_eq hsum).symm
  · refine hawake.change rfl nofun .inl (fun hw => ?_) (.inr (.inr ?_))
    · rw [hth] at hw
      have hwakeup := (overview_wakeup events).mpr hw
      -- the thread is woken: either there is more to do than it will do, or it comes for the rest
      by_cases hmore : 1 < s.taskQueueSize + (overview events).1
      · left
        show (false || decide _) = true
        rw [Bool.false_or, decide_eq_true_iff]
        exact ⟨hwakeup, hmore⟩
      · exact .inr (.inr (.inr (le_comes hmore h.size)))
    · rw [hth]
      exact le_rfl
  · refine hspread.change rfl .inl nofun .inl fun hs => .inl ?_
    rw [hth] at hs
    exact hs

end

/-! ### All interleavings -/

section
variable {τ ν : Type*} [Fintype τ] [DecidableEq τ] [DecidableEq ν] {s s' : LoopState τ ν}

theorem loop_start : (loop τ ν).start.Safe where
  waiting := by simp [loop, LoopPlace.waiting]
  size := le_rfl
  sizeEq _ := rfl
  posted := rfl
  ran := nofun
  awake := .inr fun _ => .inl rfl
  spreads := .inr nofun

theorem loop_step (a : LoopAction τ ν) (h : s.Safe) (hs : loopStep s a = some s') : s'.Safe := by
  cases a with
  | run t =>
    obtain ⟨hth, heq⟩ := Option.ite_none_right_eq_some.mp hs
    cases heq
    exact h.run hth
  | post t task =>
    obtain ⟨-, heq⟩ := Option.ite_none_right_eq_some.mp hs
    cases heq
    exact h.post task
  | requestAbort t =>
    obtain ⟨-, heq⟩ := Option.ite_none_right_eq_some.mp hs
    cases heq
    exact h.requestAbort
  | arm t =>
    obtain ⟨-, heq⟩ := Option.ite_none_right_eq_some.mp hs
    cases heq
    exact h.arm
  | enter t due =>
    obtain ⟨hcond, heq⟩ := Option.ite_none_right_eq_some.mp hs
    cases heq
    exact h.enter due hcond.2
  | finish t =>
    rw [loopStep] at hs
    split at hs
    · rename_i hth
      cases hs
      exact h.finish hth
    · cases hs
  | poll t events =>
    obtain ⟨hcond, heq⟩ := Option.ite_none_right_eq_some.mp hs
    cases heq
    exact h.poll events hcond.1
  | count t =>
    rw [loopStep] at hs
    split at hs
    · rename_i hth
      obtain ⟨-, heq⟩ := Option.ite_none_right_eq_some.mp hs
      cases heq
      exact h.count hth
    · cases hs
  | readWaiting t =>
    rw [loopStep] at hs
    split at hs
    · rename_i hth
      cases hs
      exact h.readWaiting hth
    · cases hs
  | readAbort t =>
    rw [loopStep] at hs
    split at hs
    · rename_i hth
      cases hs
      exact h.readAbort hth
    · cases hs
  | handled t =>
    rw [loopStep] at hs
    split at hs
    · rename_i hth
      cases hs
      exact h.handled hth
    · cases hs

theorem loop_safe (h : (loop τ ν).Reachable System.anyStep s) : s.Safe :=
  System.Reachable.invariant LoopState.Safe loop_start
    (fun _ a _ hs _ hstep => loop_step a hs hstep) h

omit [DecidableEq τ] [DecidableEq ν] in
/-- A thread that has still to count the tasks wakes another one, or there are no more tasks than it
comes for. -/
theorem LoopState.Safe.owes_wakes (h : s.Safe) {t : τ} (howes : (s.threads t).owes = true) :
    s.wakes t = true ∨ s.taskQueue.length ≤ (s.threads t).place.comes := by
  rw [LoopThread.owes] at howes
  rw [LoopState.wakes]
  cases hplace : (s.threads t).place with
  | polled events =>
    rw [hplace, LoopPlace.owes, Bool.or_eq_true] at howes
    obtain harming | hwoken := howes
    · exact .inl (by rw [harming, Bool.true_or])
    · have hwakeup := (overview_wakeup events).mpr hwoken
      by_cases hmore : 1 < s.taskQueueSize + (overview events).1
      · left
        rw [LoopPlace.passesOn, decide_eq_true ⟨hwakeup, hmore⟩, Bool.or_true]
      · exact .inr (le_comes hmore h.size)
  | _ =>
    rw [hplace] at howes
    exact .inl howes

/-- **No task is lost, and none waits for a sleeping thread.**  Unless a thread has locked itself
out: the tasks that were posted are those that were taken, in their order, and those in the queue,
and before an abort every task that was taken was run; and while a thread sleeps, the event
descriptor is armed, a thread is about to arm it, or every task in the queue has its own thread that
comes for it without running anything else before. -/
theorem wakeup_safe (h : (loop τ ν).Reachable System.anyStep s) :
    s.posted = s.taken.map Prod.fst ++ s.taskQueue ∧
      (s.abortRequested = false → ∀ p ∈ s.taken, p.2 = true) ∧
      (s.abortRequested = false → s.taskQueueSize = s.taskQueue.length) ∧
      (s.lockHeld = false → (∃ t, (s.threads t).place = .polling) →
        s.armed = true ∨ (∃ t, s.wakes t = true) ∨
          s.taskQueue.length ≤ ∑ t, (s.threads t).place.comes) := by
  have hs := loop_safe h
  refine ⟨hs.posted, hs.ran, hs.sizeEq, fun hheld hsleeps => ?_⟩
  obtain ⟨t, ht⟩ := hsleeps
  have hasleep : (s.threads t).place.sleeps = true := by
    rw [ht]
    rfl
  obtain harmed | ⟨u, howes⟩ | hlen := hs.awake.resolve_left (by rw [hheld]; decide) ⟨t, hasleep⟩
  · exact .inl harmed
  · obtain hwakes | hle := hs.owes_wakes howes
    · exact .inr (.inl ⟨u, hwakes⟩)
    · exact .inr (.inr (hle.trans (le_sum (fun u => (s.threads u).place.comes) u)))
  · exact .inr (.inr hlen)

/-- **An abort reaches every thread that sleeps**: while one does, the event descriptor is armed, or
a thread is about to arm it. -/
theorem wakeup_abort (h : (loop τ ν).Reachable System.anyStep s) (hheld : s.lockHeld = false)
    (habort : s.abortRequested = true) {t : τ} (ht : (s.threads t).place = .polling) :
    s.armed = true ∨ ∃ u, (s.threads u).spreads = true := by
  refine (loop_safe h).spreads.resolve_left (by rw [hheld]; decide) habort ⟨t, ?_⟩
  rw [ht]
  rfl

end

/-- Two threads sleep; the third posts two tasks, and arms the descriptor for the first of them. -/
def postingRun : List (LoopAction (Fin 3) ℕ) :=
  [.run 0, .enter 0 false, .run 1, .enter 1 false, .poll 0 [.wakeup], .count 0, .readWaiting 0,
    .readAbort 0, .handled 0, .enter 0 false, .post 2 7, .arm 2, .post 2 8]

theorem postingRun_end :
    ((loop (Fin 3) ℕ).run (loop (Fin 3) ℕ).start postingRun).map
      (fun s => (s.taskQueue, s.armed, s.lockHeld, (s.threads 1).place)) =
        some ([7, 8], true, false, .polling) := by
  decide

theorem wakeup_safe_posting : ∃ s : LoopState (Fin 3) ℕ,
    (loop (Fin 3) ℕ).run (loop (Fin 3) ℕ).start postingRun = some s ∧
      (s.armed = true ∨ (∃ t, s.wakes t = true) ∨
        s.taskQueue.length ≤ ∑ t, (s.threads t).place.comes) := by
  obtain ⟨s, hs, hend⟩ := Option.map_eq_some_iff.mp postingRun_end
  simp only [Prod.mk.injEq] at hend
  exact ⟨s, hs, (wakeup_safe (System.Reachable.start.run postingRun (System.meets_anyStep _ _)
    hs)).2.2.2 hend.2.2.1 ⟨1, hend.2.2.2⟩⟩

/-- The third thread requests an abort while two sleep. -/
def abortingRun : List (LoopAction (Fin 3) ℕ) :=
  [.run 0, .enter 0 false, .run 1, .enter 1 false, .requestAbort 2, .arm 2, .poll 0 [.wakeup]]

theorem abortingRun_end :
    ((loop (Fin 3) ℕ).run (loop (Fin 3) ℕ).start abortingRun).map
      (fun s => (s.abortRequested, s.armed, s.lockHeld, (s.threads 1).place)) =
        some (true, false, false, .polling) := by
  decide

theorem wakeup_abort_aborting : ∃ s : LoopState (Fin 3) ℕ,
    (loop (Fin 3) ℕ).run (loop (Fin 3) ℕ).start abortingRun = some s ∧
      (s.armed = true ∨ ∃ u, (s.threads u).spreads = true) := by
  obtain ⟨s, hs, hend⟩ := Option.map_eq_some_iff.mp abortingRun_end
  simp only [Prod.mk.injEq] at hend
  exact ⟨s, hs, wakeup_abort (System.Reachable.start.run abortingRun (System.meets_anyStep _ _) hs)
    hend.2.2.1 hend.1 hend.2.2.2⟩

end Rojcpp.Tinyasync
