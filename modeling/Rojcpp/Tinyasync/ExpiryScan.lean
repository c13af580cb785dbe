import Mathlib.Data.List.TakeWhile
import Rojcpp.Tinyasync.IoCtx

/-!
# The expiry scan under the queue lock

At the top of its loop, `IoCtx::run` takes the queue lock where there may be several threads, and
scans the time queue from the front: an expired node is popped, its task is posted, and it is taken
out once more.  `post_task` takes the queue lock itself, and a thread that asks for a spin lock it
holds waits for itself.

`IoCtx.step` runs the scan one node at a time and has no lock in its state; `step_expire` says that
its steps are the turns of the loop here.
-/

namespace Rojcpp.Tinyasync

open Rojcpp.Lib Function

/-- `timeNode` without its pointers. -/
structure TimeNode where
  postTask : PostTask
  expire : ℤ
  deriving DecidableEq, Repr

/-- `is_expire`. -/
def TimeNode.isExpire (node : TimeNode) (ts : ℤ) : Bool := node.expire < ts

/-- The queues of a context with the lock over them, whether this thread holds it, and how often
`wakeup_a_thread` was called. -/
structure Queues where
  queLock : Bool
  threadWaiting : ℕ
  taskQueueSize : ℕ
  taskQueue : List PostTask
  timeQueue : Links (Option ℕ)
  wakeups : ℕ

/-- What a scan does not come back from: asking for the lock it holds.  `unfinished` is for a scan
that has more turns to take. -/
inductive Wait where
  | ownLock
  | unfinished
  deriving DecidableEq, Repr

/-- `m_que_lock.lock()`; other threads let go of it after a while. -/
def Queues.lock (s : Queues) : Except Wait Queues :=
  if s.queLock then .error .ownLock else .ok { s with queLock := true }

/-- `m_que_lock.unlock()`. -/
def Queues.unlock (s : Queues) : Queues := { s with queLock := false }

/-- `wakeup_a_thread`. -/
def Queues.wakeupAThread (s : Queues) : Queues := { s with wakeups := s.wakeups + 1 }

/-- `m_task_queue.push`. -/
def Queues.pushTask (s : Queues) (task : PostTask) : Queues :=
  { s with taskQueue := s.taskQueue ++ [task] }

/-- `post_task`. -/
def Queues.postTask (multiple : Bool) (s : Queues) (task : PostTask) : Except Wait Queues :=
  if multiple then do
    let s ← s.lock
    let s := s.pushTask task
    let s := { s with taskQueueSize := s.taskQueueSize + 1 }
    let threadWaiting := s.threadWaiting
    let s := s.unlock
    return if threadWaiting > 0 then s.wakeupAThread else s
  else return s.pushTask task

/-- `remove_self` of a node of the time queue, also within `pop`. -/
def Queues.removeSelf (s : Queues) (node : Option ℕ) : Queues :=
  { s with timeQueue := s.timeQueue.removeSelf node }

/-- One turn of the loop: whether there is another one, and the queues. -/
def scanTurn (multiple : Bool) (nodes : ℕ → TimeNode) (now : ℤ) (s : Queues) :
    Except Wait (Bool × Queues) :=
  match s.timeQueue.next none with
  | none => .ok (false, s)
  | some node =>
    if (nodes node).isExpire now then do
      let s := s.removeSelf (s.timeQueue.next none)
      let s ← s.postTask multiple (nodes node).postTask
      return (true, s.removeSelf (some node))
    else .ok (false, s)

/-- The loop, for a number of turns. -/
def scanLoop (multiple : Bool) (nodes : ℕ → TimeNode) (now : ℤ) : ℕ → Queues → Except Wait Queues
  | 0, _ => .error .unfinished
  | fuel + 1, s =>
    match scanTurn multiple nodes now s with
    | .error wait => .error wait
    | .ok (false, s) => .ok s
    | .ok (true, s) => scanLoop multiple nodes now fuel s

/-- The top of `run`, up to where a task is taken. -/
def expiryScan (multiple : Bool) (nodes : ℕ → TimeNode) (now : ℤ) (fuel : ℕ) (s : Queues) :
    Except Wait Queues :=
  match (if multiple then s.lock else .ok s) with
  | .error wait => .error wait
  | .ok s => scanLoop multiple nodes now fuel s

/-- Whether a node's time is over. -/
def due (nodes : ℕ → TimeNode) (now : ℤ) (a : ℕ) : Bool := (nodes a).isExpire now

/-- The tasks of some nodes. -/
def tasksOf (nodes : ℕ → TimeNode) (l : List ℕ) : List PostTask := l.map fun a => (nodes a).postTask

/-- The scan over the nodes `l` comes to its end, and it has moved every expired one. -/
def ScansAll (multiple : Bool) (nodes : ℕ → TimeNode) (now : ℤ) (s : Queues) (l : List ℕ) : Prop :=
  ∃ fuel s', expiryScan multiple nodes now fuel s = .ok s' ∧
    Ring s'.timeQueue none ((l.filter fun a => !due nodes now a).map some) ∧
    s'.taskQueue = s.taskQueue ++ tasksOf nodes (l.filter (due nodes now))

/-! ### One turn -/

section
variable {multiple : Bool} {nodes : ℕ → TimeNode} {now : ℤ} {s : Queues} {a : ℕ} {l : List ℕ}

/-- The loop ends when the queue is empty. -/
theorem scanTurn_nil (hr : Ring s.timeQueue none []) :
    scanTurn multiple nodes now s = .ok (false, s) := by
  have hfront : s.timeQueue.next none = none := hr.next_head
  rw [scanTurn, hfront]

/-- It ends at a node that is not expired. -/
theorem scanTurn_unexpired (hr : Ring s.timeQueue none ((a :: l).map some))
    (ha : due nodes now a = false) : scanTurn multiple nodes now s = .ok (false, s) := by
  have hfront : s.timeQueue.next none = some a := hr.next_head
  rw [scanTurn, hfront]
  show (if due nodes now a = true then _ else _) = _
  rw [ha]
  rfl

/-- An expired node is posted. -/
theorem scanTurn_expired (hr : Ring s.timeQueue none ((a :: l).map some))
    (ha : due nodes now a = true) :
    scanTurn multiple nodes now s =
      (((s.removeSelf (some a)).postTask multiple (nodes a).postTask).map fun s =>
        (true, s.removeSelf (some a))) := by
  have hfront : s.timeQueue.next none = some a := hr.next_head
  rw [scanTurn, hfront]
  show (if due nodes now a = true then _ else _) = _
  rw [if_pos ha]
  show ((s.removeSelf (some a)).postTask multiple (nodes a).postTask >>= fun s => _) = _
  cases (s.removeSelf (some a)).postTask multiple (nodes a).postTask with
  | error wait => rfl
  | ok s => rfl

/-- One thread moves it to the end of the task queue. -/
theorem scanTurn_single (hr : Ring s.timeQueue none ((a :: l).map some))
    (ha : due nodes now a = true) :
    ∃ s', scanTurn false nodes now s = .ok (true, s') ∧ Ring s'.timeQueue none (l.map some) ∧
      s'.taskQueue = s.taskQueue ++ [(nodes a).postTask] := by
  refine ⟨((s.removeSelf (some a)).pushTask (nodes a).postTask).removeSelf (some a), ?_, ?_, rfl⟩
  · rw [scanTurn_expired hr ha]
    rfl
  · have hfirst : Ring s.timeQueue none ([] ++ some a :: l.map some) := hr
    show Ring ((s.timeQueue.removeSelf (some a)).removeSelf (some a)) none ([] ++ l.map some)
    rw [hfirst.removeSelf_removeSelf]
    exact hfirst.removeSelf

/-- **With the lock held, posting it waits for the lock.** -/
theorem scanTurn_multiple (hr : Ring s.timeQueue none ((a :: l).map some))
    (ha : due nodes now a = true) (hlock : s.queLock = true) :
    scanTurn true nodes now s = .error .ownLock := by
  have hheld : (s.removeSelf (some a)).lock = .error .ownLock := if_pos hlock
  rw [scanTurn_expired hr ha, Queues.postTask, if_pos rfl, hheld]
  rfl

/-! ### The loop -/

theorem scanLoop_end (fuel : ℕ) (h : scanTurn multiple nodes now s = .ok (false, s)) :
    scanLoop multiple nodes now (fuel + 1) s = .ok s := by
  rw [scanLoop, h]

/-- **What one thread's scan does**: enough turns move the expired nodes at the front of the queue,
and any number of turns that is enough leaves the rest as it is. -/
theorem scanLoop_single (l : List ℕ) : ∀ s : Queues, Ring s.timeQueue none (l.map some) →
    (∃ s', scanLoop false nodes now (l.length + 1) s = .ok s') ∧
    ∀ fuel s', scanLoop false nodes now fuel s = .ok s' →
      Ring s'.timeQueue none ((l.dropWhile (due nodes now)).map some) ∧
      s'.taskQueue = s.taskQueue ++ tasksOf nodes (l.takeWhile (due nodes now)) := by
  have hstop : ∀ {l : List ℕ} {s : Queues}, Ring s.timeQueue none (l.map some) →
      scanTurn false nodes now s = .ok (false, s) →
      l.dropWhile (due nodes now) = l → l.takeWhile (due nodes now) = [] →
      (∃ s', scanLoop false nodes now (l.length + 1) s = .ok s') ∧
      ∀ fuel s', scanLoop false nodes now fuel s = .ok s' →
        Ring s'.timeQueue none ((l.dropWhile (due nodes now)).map some) ∧
        s'.taskQueue = s.taskQueue ++ tasksOf nodes (l.takeWhile (due nodes now)) := by
    intro l s hr hturn hdrop htake
    refine ⟨⟨s, scanLoop_end l.length hturn⟩, fun fuel s' hok => ?_⟩
    cases fuel with
    | zero => cases hok
    | succ fuel =>
      rw [scanLoop_end fuel hturn, Except.ok.injEq] at hok
      rw [← hok, hdrop, htake]
      exact ⟨hr, (List.append_nil _).symm⟩
  induction l with
  | nil => exact fun s hr => hstop hr (scanTurn_nil hr) rfl rfl
  | cons a l ih =>
    intro s hr
    cases ha : due nodes now a with
    | false =>
      refine hstop hr (scanTurn_unexpired hr ha) ?_ ?_
      · rw [List.dropWhile_cons_of_neg (by rw [ha]; decide)]
      · rw [List.takeWhile_cons_of_neg (by rw [ha]; decide)]
    | true =>
      obtain ⟨s₁, hturn, hr₁, htasks⟩ := scanTurn_single hr ha
      obtain ⟨⟨s₂, hrun⟩, hall⟩ := ih s₁ hr₁
      have hloop : ∀ fuel, scanLoop false nodes now (fuel + 1) s =
          scanLoop false nodes now fuel s₁ := by
        intro fuel
        rw [scanLoop, hturn]
      refine ⟨⟨s₂, ?_⟩, fun fuel s' hok => ?_⟩
      · rw [hloop]
        exact hrun
      · cases fuel with
        | zero => cases hok
        | succ fuel =>
          rw [hloop] at hok
          obtain ⟨hring, hqueue⟩ := hall fuel s' hok
          rw [List.dropWhile_cons_of_pos ha, List.takeWhile_cons_of_pos ha, hqueue, htasks,
            List.append_assoc]
          exact ⟨hring, rfl⟩

/-- **What a scan under the lock does**: it ends at once, at a queue whose front is not expired, or
it never ends. -/
theorem scanLoop_multiple (hr : Ring s.timeQueue none (l.map some)) (hlock : s.queLock = true) :
    (∀ fuel, scanLoop true nodes now (fuel + 1) s = .ok s) ∨
      (∃ a ∈ l, due nodes now a = true) ∧
        ∀ fuel s', scanLoop true nodes now fuel s ≠ .ok s' := by
  cases l with
  | nil => exact .inl fun fuel => scanLoop_end fuel (scanTurn_nil hr)
  | cons a l =>
    cases ha : due nodes now a with
    | false => exact .inl fun fuel => scanLoop_end fuel (scanTurn_unexpired hr ha)
    | true =>
      refine .inr ⟨⟨a, List.mem_cons_self, ha⟩, fun fuel s' hok => ?_⟩
      cases fuel with
      | zero => cases hok
      | succ fuel =>
        rw [scanLoop, scanTurn_multiple hr ha hlock] at hok
        cases hok

end

/-! ### Expired nodes at the front -/

section
variable {α : Type} (p : α → Bool)

/-- Nothing is left to drop behind the first node that stays exactly when no node that is dropped
stands behind one that stays. -/
theorem dropWhile_none_iff (l : List α) :
    (∀ x ∈ l.dropWhile p, p x = false) ↔ l.Pairwise fun a b => p b = true → p a = true := by
  induction l with
  | nil => exact ⟨fun _ => List.Pairwise.nil, fun _ x hx => absurd hx List.not_mem_nil⟩
  | cons a l ih =>
    rw [List.pairwise_cons]
    cases ha : p a with
    | true =>
      rw [List.dropWhile_cons_of_pos ha, ih]
      exact ⟨fun h => ⟨fun _ _ _ => rfl, h⟩, fun h => h.2⟩
    | false =>
      rw [List.dropWhile_cons_of_neg (by rw [ha]; decide)]
      constructor
      · intro h
        have hl : ∀ b ∈ l, p b = false := fun b hb => h b (List.mem_cons_of_mem _ hb)
        refine ⟨fun b hb hpb => ?_, List.pairwise_of_forall_mem_list fun b _ c hc hpc => ?_⟩
        · rw [hl b hb] at hpb
          exact hpb
        · rw [hl c hc] at hpc
          cases hpc
      · intro h x hx
        cases List.mem_cons.mp hx with
        | inl hxa => rw [hxa, ha]
        | inr hxl =>
          cases hpx : p x with
          | false => rfl
          | true => exact absurd (h.1 x hxl hpx) Bool.false_ne_true

/-- Then the front is all that is dropped. -/
theorem filter_eq_takeWhile {l : List α} (h : ∀ x ∈ l.dropWhile p, p x = false) :
    l.filter p = l.takeWhile p ∧ l.filter (fun x => !p x) = l.dropWhile p := by
  have htake : ∀ x ∈ l.takeWhile p, p x = true := fun x hx => List.mem_takeWhile_imp hx
  have hsplit : l = l.takeWhile p ++ l.dropWhile p := List.takeWhile_append_dropWhile.symm
  constructor
  · rw [hsplit, List.filter_append, ← hsplit, List.filter_eq_self.mpr htake,
      List.filter_eq_nil_iff.mpr fun x hx => by rw [h x hx]; decide, List.append_nil]
  · rw [hsplit, List.filter_append, ← hsplit,
      List.filter_eq_nil_iff.mpr fun x hx => by rw [htake x hx]; decide,
      List.filter_eq_self.mpr fun x hx => by rw [h x hx]; rfl, List.nil_append]

end

/-- Nodes in the order of their times have the expired ones at the front. -/
theorem expired_at_front {nodes : ℕ → TimeNode} {l : List ℕ} (now : ℤ)
    (hsorted : l.Pairwise fun a b => (nodes a).expire ≤ (nodes b).expire) :
    l.Pairwise fun a b => due nodes now b = true → due nodes now a = true :=
  hsorted.imp fun hab hb =>
    decide_eq_true (Int.lt_of_le_of_lt hab (of_decide_eq_true hb))

/-- A ring holds its nodes only: where one list of them leaves the nodes out that are due, so does
any other. -/
theorem none_due_of_rings {nodes : ℕ → TimeNode} {now : ℤ} {g : Links (Option ℕ)} {l m : List ℕ}
    (hl : Ring g none (l.map some))
    (hm : Ring g none ((m.filter fun a => !due nodes now a).map some)) :
    ∀ a ∈ l, due nodes now a = false := by
  intro a ha
  have hmem := (hm.reaches_iff (some a)).mp
    ((hl.reaches_iff (some a)).mpr (List.mem_cons_of_mem _ (List.mem_map_of_mem ha)))
  rw [List.mem_cons, List.mem_map] at hmem
  obtain ⟨b, hb, hba⟩ := hmem.resolve_left (Option.some_ne_none a)
  cases hba
  have hkept := (List.mem_filter.mp hb).2
  rw [Bool.not_eq_true'] at hkept
  exact hkept

section
variable {nodes : ℕ → TimeNode} {now : ℤ} {s : Queues} {l : List ℕ}

/-- With the lock the scan does its work exactly when there is none to do. -/
theorem scansAll_locked (hring : Ring s.timeQueue none (l.map some)) (hlock : s.queLock = false) :
    ScansAll true nodes now s l ↔ ∀ a ∈ l, due nodes now a = false := by
  let held : Queues := { s with queLock := true }
  have hstart : ∀ fuel, expiryScan true nodes now fuel s = scanLoop true nodes now fuel held := by
    intro fuel
    rw [expiryScan, if_pos rfl, Queues.lock, hlock]
    rfl
  have hheld : Ring held.timeQueue none (l.map some) := hring
  constructor
  · intro h
    obtain ⟨fuel, s', hok, hrest, -⟩ := h
    rw [hstart] at hok
    rcases scanLoop_multiple hheld rfl with hall | ⟨-, hnever⟩
    · cases fuel with
      | zero => cases hok
      | succ fuel =>
        rw [hall fuel, Except.ok.injEq] at hok
        rw [← hok] at hrest
        exact none_due_of_rings hheld hrest
    · exact absurd hok (hnever fuel s')
  · intro hl
    have hkept : l.filter (fun a => !due nodes now a) = l :=
      List.filter_eq_self.mpr fun a ha => by rw [hl a ha]; rfl
    have hmoved : l.filter (due nodes now) = [] :=
      List.filter_eq_nil_iff.mpr fun a ha => by rw [hl a ha]; decide
    rcases scanLoop_multiple hheld rfl with hall | ⟨⟨a, ha, hdue⟩, -⟩
    · refine ⟨1, held, ?_, ?_, ?_⟩
      · rw [hstart]
        exact hall 0
      · rw [hkept]
        exact hheld
      · rw [hmoved]
        exact (List.append_nil _).symm
    · rw [hl a ha] at hdue
      cases hdue

/-- Without it, exactly when the expired nodes stand in front. -/
theorem scansAll_unlocked (hring : Ring s.timeQueue none (l.map some)) :
    ScansAll false nodes now s l ↔
      l.Pairwise fun a b => due nodes now b = true → due nodes now a = true := by
  have hstart : ∀ fuel, expiryScan false nodes now fuel s = scanLoop false nodes now fuel s :=
    fun _ => rfl
  obtain ⟨⟨s₁, hrun⟩, hall⟩ := scanLoop_single l s hring
  obtain ⟨hring₁, htasks₁⟩ := hall _ s₁ hrun
  constructor
  · intro h
    obtain ⟨fuel, s', hok, hrest, -⟩ := h
    rw [hstart] at hok
    obtain ⟨hring', -⟩ := hall fuel s' hok
    exact (dropWhile_none_iff _ l).mp (none_due_of_rings hring' hrest)
  · intro hfront
    obtain ⟨hfilter, hkept⟩ := filter_eq_takeWhile _ ((dropWhile_none_iff _ l).mpr hfront)
    refine ⟨l.length + 1, s₁, hrun, ?_, ?_⟩
    · rw [hkept]
      exact hring₁
    · rw [hfilter]
      exact htasks₁

end

/-- **When the scan does its work.**  For every time queue, every reading of the clock and both
kinds of context: the scan comes to its end with every expired node moved to the task queue in order
and the others left in order if and only if no node is expired, or there is one thread only and no
expired node stands behind one that is not. -/
theorem scansAll_iff (multiple : Bool) (nodes : ℕ → TimeNode) (now : ℤ) (s : Queues) (l : List ℕ)
    (hring : Ring s.timeQueue none (l.map some)) (hlock : s.queLock = false) :
    ScansAll multiple nodes now s l ↔
      (∀ a ∈ l, due nodes now a = false) ∨
        (multiple = false ∧
          l.Pairwise fun a b => due nodes now b = true → due nodes now a = true) := by
  cases multiple with
  | true =>
    rw [scansAll_locked hring hlock]
    exact (or_iff_left fun hsingle => Bool.noConfusion hsingle.1).symm
  | false =>
    rw [scansAll_unlocked hring]
    constructor
    · exact fun hfront => .inr ⟨rfl, hfront⟩
    · intro h
      rcases h with hl | ⟨-, hfront⟩
      · refine List.pairwise_of_forall_mem_list fun a _ b hb hdue => ?_
        rw [hl b hb] at hdue
        cases hdue
      · exact hfront

/-- Two nodes wait. -/
def twoNodes : Queues :=
  ⟨false, 0, 0, [], ((Links.alone _).push none (some 0)).push (some 0) (some 1), 0⟩

theorem twoNodes_ring : Ring twoNodes.timeQueue none ([0, 1].map some) :=
  ((ring_alone none).push (x := some 0) (by decide)).push (by decide)

/-- The scan of one thread, with the first node expired. -/
theorem scansAll_iff_single :
    ScansAll false (fun a => ⟨.timeout a, 10 * a⟩) 5 twoNodes [0, 1] := by
  refine (scansAll_iff false (fun a => ⟨.timeout a, 10 * a⟩) 5 twoNodes [0, 1] twoNodes_ring
    rfl).mpr (.inr ⟨rfl, ?_⟩)
  exact List.pairwise_pair.mpr fun hdue => absurd hdue (by decide)

/-- Where there may be several threads, the same scan waits for the lock it holds. -/
theorem expired_node_blocks :
    Ring twoNodes.timeQueue none ([0, 1].map some) ∧ twoNodes.queLock = false ∧
      (∀ fuel, expiryScan true (fun a => ⟨.timeout a, 10 * a⟩) 5 (fuel + 1) twoNodes =
        .error .ownLock) ∧
      ¬ScansAll true (fun a => ⟨.timeout a, 10 * a⟩) 5 twoNodes [0, 1] := by
  have hblocked : ∀ fuel, expiryScan true (fun a => ⟨.timeout a, 10 * a⟩) 5 (fuel + 1) twoNodes =
      .error .ownLock := fun _ => rfl
  refine ⟨twoNodes_ring, rfl, hblocked, ?_⟩
  rintro ⟨fuel, s', hok, -⟩
  cases fuel with
  | zero => cases hok
  | succ fuel =>
    rw [hblocked fuel] at hok
    cases hok

/-- **The steps of the event loop are the turns of the scan**, with the lock as far as it stops
them. -/
theorem step_expire {multiple : Bool} {nodes : ℕ → TimeNode} {now : ℕ} {s : IoCtx} {q : Queues}
    (hcontrol : s.control = .scan now) (hlock : q.queLock = multiple)
    (htime : q.timeQueue = s.timeQueue) (htasks : q.taskQueue = s.taskQueue)
    (hnodes : ∀ a, s.timeQueue.next none = some a →
      ∃ w, s.awaiters a = some w ∧ nodes a = ⟨.timeout a, w.expire⟩) :
    step multiple s .expire = match scanTurn multiple nodes now q with
      | .error _ => none
      | .ok (false, _) => some { s with control := .pop }
      | .ok (true, q) =>
        some { s with timeQueue := q.timeQueue, taskQueue := q.taskQueue } := by
  rw [step, hcontrol, scanTurn, htime]
  cases hfront : s.timeQueue.next none with
  | none => rfl
  | some a =>
    obtain ⟨w, hw, hnode⟩ := hnodes a hfront
    simp only [hw, hnode, TimeNode.isExpire, Int.ofNat_lt, decide_eq_true_eq]
    by_cases hexpired : w.expire < now
    · rw [if_pos hexpired, if_pos hexpired]
      cases multiple with
      | false =>
        show _ = some _
        rw [← htime, ← htasks]
        rfl
      | true =>
        have hheld : (q.removeSelf (some a)).lock = .error .ownLock := if_pos hlock
        rw [Queues.postTask, if_pos rfl, hheld]
        rfl
    · rw [if_neg hexpired, if_neg hexpired]

end Rojcpp.Tinyasync
