import Rojcpp.Judge.WorkPool
import Rojcpp.Lib.System

/-!
# The queue of the judge workers

`enque` and the waiting loop of `judgeWork` as one system.  What runs under the mutex of the pool is
one step: `enque` appends its node and notifies one sleeper, and a worker that has the mutex takes
the front of the queue or goes to sleep.  A sleeper leaves `_task_cv.wait` by a notification or
without one; either way it takes the mutex again and looks at the queue again.

Beside the queue the state keeps what was enqueued and who took what, in the order in which the
mutex was taken.
-/

namespace Rojcpp.Judge

open Rojcpp.Lib Function

/-! ### Nodes and workers -/

/-- `JUDGE_STAGE`. -/
inductive JudgeStage where
  | prepare
  | judging
  deriving DecidableEq, Repr

/-- A `judge_Queue_node` with the stage `judgeWork` branches on. -/
structure StagedNode where
  stage : JudgeStage
  node : JudgeQueueNode
  deriving DecidableEq, Repr

/-- The node `judgeWorkPool::enque` appends. -/
def stagedNode (msj : MessageSendJudge) (fd : Int32) : StagedNode := ⟨.prepare, enque msj fd⟩

/-- Where a worker is: about to take the mutex, asleep in `wait` without a notification, or working
on its node. -/
inductive WorkerPlace where
  | locking
  | asleep
  | working (jn : StagedNode)
  deriving DecidableEq, Repr

/-- The pool: its queue, its workers, all nodes ever enqueued, and the nodes taken with the worker
that took each. -/
structure PoolState where
  q : List StagedNode
  workers : ℕ → WorkerPlace
  enqueued : List StagedNode
  taken : List (ℕ × StagedNode)

/-- The steps: a producer enqueues and notifies a worker or, when none sleeps, nobody; a worker
takes the mutex; a worker ends its job; a sleeper wakes up without a notification. -/
inductive PoolAction where
  | enque (msj : MessageSendJudge) (fd : Int32) (notified : Option ℕ)
  | lock (w : ℕ)
  | finish (w : ℕ)
  | spurious (w : ℕ)
  deriving DecidableEq, Repr

/-- `notify_one` may wake this worker; it wakes nobody only when nobody sleeps. -/
def MayNotify (size : ℕ) (workers : ℕ → WorkerPlace) : Option ℕ → Prop
  | some w => w < size ∧ workers w = .asleep
  | none => ∀ w < size, workers w ≠ .asleep

instance mayNotifyDecidable (size : ℕ) (workers : ℕ → WorkerPlace) (target : Option ℕ) :
    Decidable (MayNotify size workers target) :=
  match target with
  | some w => inferInstanceAs (Decidable (w < size ∧ workers w = .asleep))
  | none => inferInstanceAs (Decidable (∀ w < size, workers w ≠ .asleep))

/-- The workers after `notify_one`. -/
def notifyOne (workers : ℕ → WorkerPlace) : Option ℕ → ℕ → WorkerPlace
  | some w => update workers w .locking
  | none => workers

/-- One step of a pool with `size` workers. -/
def poolStep (size : ℕ) (s : PoolState) : PoolAction → Option PoolState
  | .enque msj fd notified =>
    if MayNotify size s.workers notified then
      some { s with
        q := s.q ++ [stagedNode msj fd]
        enqueued := s.enqueued ++ [stagedNode msj fd]
        workers := notifyOne s.workers notified }
    else none
  | .lock w =>
    if w < size ∧ s.workers w = .locking then
      match s.q with
      | [] => some { s with workers := update s.workers w .asleep }
      | jn :: q =>
        some { s with
          q := q
          workers := update s.workers w (.working jn)
          taken := s.taken ++ [(w, jn)] }
    else none
  | .finish w =>
    match s.workers w with
    | .working _ => some { s with workers := update s.workers w .locking }
    | _ => none
  | .spurious w =>
    if s.workers w = .asleep then some { s with workers := update s.workers w .locking } else none

/-- A pool with `size` workers that have just been started. -/
def judgeWorkPool (size : ℕ) : System PoolState PoolAction :=
  ⟨⟨[], fun _ => .locking, [], []⟩, poolStep size⟩

/-! ### What a step does -/

/-- The effect of a step, case by case. -/
inductive PoolEffect (size : ℕ) (s : PoolState) : PoolState → Prop
  | enque (jn : StagedNode) (notified : Option ℕ) (h : MayNotify size s.workers notified) :
      PoolEffect size s { s with
        q := s.q ++ [jn]
        enqueued := s.enqueued ++ [jn]
        workers := notifyOne s.workers notified }
  | take (w : ℕ) (jn : StagedNode) (q : List StagedNode) (hw : w < size) (hq : s.q = jn :: q)
      (hlock : s.workers w = .locking) :
      PoolEffect size s { s with
        q := q
        workers := update s.workers w (.working jn)
        taken := s.taken ++ [(w, jn)] }
  | wait (w : ℕ) (hq : s.q = []) :
      PoolEffect size s { s with workers := update s.workers w .asleep }
  | wake (w : ℕ) : PoolEffect size s { s with workers := update s.workers w .locking }

theorem poolEffect_of_step {size : ℕ} {s s' : PoolState} {a : PoolAction}
    (h : poolStep size s a = some s') : PoolEffect size s s' := by
  cases a with
  | enque msj fd notified =>
    simp only [poolStep, Option.ite_none_right_eq_some, Option.some.injEq] at h
    obtain ⟨hnotify, rfl⟩ := h
    exact .enque (stagedNode msj fd) notified hnotify
  | lock w =>
    simp only [poolStep, Option.ite_none_right_eq_some] at h
    obtain ⟨⟨hw, hlock⟩, h⟩ := h
    split at h
    · rename_i hq
      cases h
      exact .wait w hq
    · rename_i jn q hq
      cases h
      exact .take w jn q hw hq hlock
  | finish w =>
    simp only [poolStep] at h
    split at h
    · cases h
      exact .wake w
    · cases h
  | spurious w =>
    simp only [poolStep, Option.ite_none_right_eq_some, Option.some.injEq] at h
    obtain ⟨-, rfl⟩ := h
    exact .wake w

/-! ### The invariant -/

/-- This worker took this node last. -/
def TookLast (taken : List (ℕ × StagedNode)) (w : ℕ) (jn : StagedNode) : Prop :=
  ∃ before after, taken = before ++ (w, jn) :: after ∧ ∀ e ∈ after, e.1 ≠ w

/-- The invariant: the nodes taken and the nodes waiting are the nodes enqueued, a worker works on
what it took, and a queue that is not empty has a worker that will look at it. -/
structure PoolInv (size : ℕ) (s : PoolState) : Prop where
  fifo : s.taken.map Prod.snd ++ s.q = s.enqueued
  working : ∀ w jn, s.workers w = .working jn → TookLast s.taken w jn
  awake : s.q ≠ [] → ∃ w < size, s.workers w ≠ .asleep

theorem poolInv_start (size : ℕ) : PoolInv size (judgeWorkPool size).start where
  fifo := rfl
  working := by
    intro w jn h
    cases h
  awake := by
    intro h
    exact absurd rfl h

/-- A taken node of somebody else leaves a worker's own node the last one it took. -/
theorem tookLast_concat {taken : List (ℕ × StagedNode)} {w v : ℕ} {jn k : StagedNode}
    (h : TookLast taken w jn) (hv : v ≠ w) : TookLast (taken ++ [(v, k)]) w jn := by
  obtain ⟨before, after, rfl, hafter⟩ := h
  refine ⟨before, after ++ [(v, k)], by rw [List.append_assoc, List.cons_append], ?_⟩
  intro e he
  cases List.mem_append.mp he with
  | inl he => exact hafter e he
  | inr he => rw [List.mem_singleton.mp he]; exact hv

theorem tookLast_self (taken : List (ℕ × StagedNode)) (w : ℕ) (jn : StagedNode) :
    TookLast (taken ++ [(w, jn)]) w jn :=
  ⟨taken, [], rfl, fun _ he => absurd he (by simp)⟩

/-- A worker that leaves the mutex or `wait` is no longer asleep, and works on nothing new. -/
theorem notifyOne_working {workers : ℕ → WorkerPlace} {notified : Option ℕ} {w : ℕ}
    {jn : StagedNode} (h : notifyOne workers notified w = .working jn) :
    workers w = .working jn := by
  cases notified with
  | none => exact h
  | some v =>
    by_cases hv : w = v
    · rw [notifyOne, hv, update_self] at h
      cases h
    · rwa [notifyOne, update_of_ne hv] at h

/-- One step keeps the invariant. -/
theorem poolInv_step {size : ℕ} (hsize : 0 < size) {s s' : PoolState} (hs : PoolInv size s)
    (h : PoolEffect size s s') : PoolInv size s' := by
  cases h with
  | enque jn notified hnotify =>
    refine ⟨?_, fun w k hw => hs.working w k (notifyOne_working hw), fun _ => ?_⟩
    · show s.taken.map Prod.snd ++ (s.q ++ [jn]) = s.enqueued ++ [jn]
      rw [← List.append_assoc, hs.fifo]
    · -- the notified worker will look; without a sleeper every worker will
      cases notified with
      | some w =>
        refine ⟨w, hnotify.1, ?_⟩
        show update s.workers w .locking w ≠ .asleep
        rw [update_self]
        exact fun h => by cases h
      | none => exact ⟨0, hsize, hnotify 0 hsize⟩
  | take w jn q hw hq hlock =>
    refine ⟨?_, fun v k hv => ?_, fun _ => ⟨w, hw, ?_⟩⟩
    · show (s.taken ++ [(w, jn)]).map Prod.snd ++ q = s.enqueued
      rw [List.map_append, List.append_assoc, ← hs.fifo, hq]
      rfl
    · show TookLast (s.taken ++ [(w, jn)]) v k
      have hv : update s.workers w (.working jn) v = .working k := hv
      by_cases hvw : v = w
      · rw [hvw, update_self] at hv
        cases hv
        rw [hvw]
        exact tookLast_self s.taken w jn
      · rw [update_of_ne hvw] at hv
        exact tookLast_concat (hs.working v k hv) (Ne.symm hvw)
    · show update s.workers w (.working jn) w ≠ .asleep
      rw [update_self]
      exact fun h => by cases h
  | wait w hq =>
    refine ⟨hs.fifo, fun v k hv => ?_, fun hne => absurd hq hne⟩
    have hv : update s.workers w .asleep v = .working k := hv
    by_cases hvw : v = w
    · rw [hvw, update_self] at hv
      cases hv
    · rw [update_of_ne hvw] at hv
      exact hs.working v k hv
  | wake w =>
    refine ⟨hs.fifo, fun v k hv => ?_, fun hne => ?_⟩
    · have hv : update s.workers w .locking v = .working k := hv
      by_cases hvw : v = w
      · rw [hvw, update_self] at hv
        cases hv
      · rw [update_of_ne hvw] at hv
        exact hs.working v k hv
    · obtain ⟨v, hv, hawake⟩ := hs.awake hne
      refine ⟨v, hv, ?_⟩
      show update s.workers w .locking v ≠ .asleep
      by_cases hvw : v = w
      · rw [hvw, update_self]
        exact fun h => by cases h
      · rw [update_of_ne hvw]
        exact hawake

/-! ### Runs -/

/-- The nodes the calls of `enque` in a run append. -/
def PoolAction.node? : PoolAction → Option StagedNode
  | .enque msj fd _ => some (stagedNode msj fd)
  | .lock _ => none
  | .finish _ => none
  | .spurious _ => none

/-- One step appends the node of its call to what was enqueued. -/
theorem enqueued_step {size : ℕ} {s s' : PoolState} {a : PoolAction}
    (h : poolStep size s a = some s') : s'.enqueued = s.enqueued ++ a.node?.toList := by
  cases a with
  | enque msj fd notified =>
    simp only [poolStep, Option.ite_none_right_eq_some, Option.some.injEq] at h
    obtain ⟨-, rfl⟩ := h
    rfl
  | lock w =>
    simp only [poolStep, Option.ite_none_right_eq_some] at h
    obtain ⟨-, h⟩ := h
    split at h
    · cases h
      exact (List.append_nil _).symm
    · cases h
      exact (List.append_nil _).symm
  | finish w =>
    simp only [poolStep] at h
    split at h
    · cases h
      exact (List.append_nil _).symm
    · cases h
  | spurious w =>
    simp only [poolStep, Option.ite_none_right_eq_some, Option.some.injEq] at h
    obtain ⟨-, rfl⟩ := h
    exact (List.append_nil _).symm

/-- What was enqueued are the nodes of the calls, in their order. -/
theorem enqueued_run {size : ℕ} {as : List PoolAction} {s : PoolState}
    (hrun : (judgeWorkPool size).run (judgeWorkPool size).start as = some s) :
    s.enqueued = as.filterMap PoolAction.node? := by
  refine System.run_history (P := fun as s => s.enqueued = as.filterMap PoolAction.node?) rfl
    (fun as s a s' ih h => ?_) as hrun
  rw [enqueued_step h, ih, List.filterMap_append, List.filterMap_cons]
  cases a.node? with
  | none => rfl
  | some jn => rfl

/-- **The queue hands out every node once, in order, and sleeps on none.**  In every run of a pool
with a worker, the nodes taken are a prefix of the nodes enqueued, each is what exactly one worker
took, a worker works on the node it took last, and while the queue is not empty some worker is not
asleep. -/
theorem pool_fifo {size : ℕ} (hsize : 0 < size) {as : List PoolAction} {s : PoolState}
    (hrun : (judgeWorkPool size).run (judgeWorkPool size).start as = some s) :
    s.taken.map Prod.snd <+: as.filterMap PoolAction.node? ∧
      (∀ i < s.taken.length, ∃ jn, (as.filterMap PoolAction.node?)[i]? = some jn ∧
        ∃! w, s.taken[i]? = some (w, jn)) ∧
      (∀ w jn, s.workers w = .working jn → TookLast s.taken w jn) ∧
      (s.q ≠ [] → ∃ w < size, s.workers w ≠ .asleep) := by
  have hreach : (judgeWorkPool size).Reachable System.anyStep s :=
    System.Reachable.run .start as (System.meets_anyStep _ as) hrun
  have hinv : PoolInv size s := System.Reachable.invariant (PoolInv size) (poolInv_start size)
    (fun s a s' hinv _ hstep => poolInv_step hsize hinv (poolEffect_of_step hstep)) hreach
  have hnodes : as.filterMap PoolAction.node? = s.taken.map Prod.snd ++ s.q := by
    rw [hinv.fifo, enqueued_run hrun]
  rw [hnodes]
  refine ⟨List.prefix_append _ _, fun i hi => ?_, hinv.working, hinv.awake⟩
  refine ⟨s.taken[i].2, ?_, s.taken[i].1, List.getElem?_eq_getElem hi, fun w hw => ?_⟩
  · rw [List.getElem?_append_left (by rwa [List.length_map]), List.getElem?_map,
      List.getElem?_eq_getElem hi]
    rfl
  · rw [List.getElem?_eq_getElem hi] at hw
    exact (congrArg Prod.fst (Option.some.inj hw)).symm

/-- A submission of a run with two workers. -/
def poolMsg (key : String) : MessageSendJudge := ⟨ascii key, [], ascii "cpp", ascii "1", 1000, 256⟩

/-- Both workers fall asleep; one is notified, the other wakes up by itself, takes the node and
leaves the notified one an empty queue; a second node waits while both work or look. -/
def poolActions : List PoolAction :=
  [.lock 0, .lock 1, .enque (poolMsg "a") 4 (some 0), .spurious 1, .lock 1, .lock 0,
    .enque (poolMsg "b") 5 (some 0)]

theorem pool_fifo_two : ∃ s,
    (judgeWorkPool 2).run (judgeWorkPool 2).start poolActions = some s ∧
      s.taken.map Prod.snd <+: poolActions.filterMap PoolAction.node? ∧
      (∀ i < s.taken.length, ∃ jn, (poolActions.filterMap PoolAction.node?)[i]? = some jn ∧
        ∃! w, s.taken[i]? = some (w, jn)) ∧
      (∀ w jn, s.workers w = .working jn → TookLast s.taken w jn) ∧
      (s.q ≠ [] → ∃ w < 2, s.workers w ≠ .asleep) := by
  have hrun : ∃ s, (judgeWorkPool 2).run (judgeWorkPool 2).start poolActions = some s :=
    ⟨_, rfl⟩
  obtain ⟨s, hrun⟩ := hrun
  exact ⟨s, hrun, pool_fifo (by decide) hrun⟩

end Rojcpp.Judge
