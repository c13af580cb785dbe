import Mathlib.Data.List.Basic
import Rojcpp.Tinyasync.IoCtx

/-!
# The time queue and the suspended awaiters

The node of an awaiter is linked when it is suspended with the timeout flag, and it has to be taken
out on every way back: after data `await_resume` does so, an expiry is taken out by the scan, which
leaves the awaiter to its posted task.  An awaiter that is resumed by a failed receive or by the
closing of its connection throws before it comes to `remove_self`: its node stays linked.

`Effect` is the inversion of a step, and `TimeQueue` the invariant, which every other step keeps.
-/

namespace Rojcpp.Tinyasync

open Rojcpp.Lib Function

/-! ### What a step does to the queue -/

/-- The node of the awaiter is reached from the head of `m_time_queue`. -/
def IoCtx.Linked (s : IoCtx) (a : ℕ) : Prop := ∃ k, s.timeQueue.next^[k] none = some a

/-- The awaiter is suspended with the timeout flag. -/
def IoCtx.Suspended (s : IoCtx) (a : ℕ) : Prop :=
  ∃ w, s.awaiters a = some w ∧ w.suspended = true ∧ w.timeoutFlag = true

/-- The awaiter is suspended with the timeout flag, and the scan has not found it expired. -/
def IoCtx.Waits (s : IoCtx) (a : ℕ) : Prop := s.Suspended a ∧ PostTask.timeout a ∉ s.taskQueue

/-- The loop handles events. -/
def Control.polled : Control → Bool
  | .events => true
  | .reading _ _ => true
  | .leaving _ => true
  | _ => false

/-- The awaiters that the loop goes through, to resume one after the other. -/
def Control.resumes : Control → List ℕ
  | .wakeup awaiters => awaiters
  | .reading _ awaiters => awaiters
  | _ => []

/-- The awaiter that a step resumes with an error: a failed receive, or the closing of its
connection. -/
def failing (s : IoCtx) : Action → Option ℕ
  | .recv .error =>
    match s.control with
    | .reading _ (a :: _) => some a
    | _ => none
  | .wake =>
    match s.control with
    | .wakeup (a :: _) => some a
    | _ => none
  | _ => none

/-- The awaiter of a step's expired node. -/
def expired (s : IoCtx) : Action → Option ℕ
  | .expire =>
    match s.control, s.timeQueue.next none with
    | .scan now, some a =>
      match s.awaiters a with
      | some w => if w.expire < now then some a else none
      | none => none
    | _, _ => none
  | _ => none

/-- A suspended awaiter goes on. -/
structure Resumed (s s' : IoCtx) (a : ℕ) (w : AsyncReceiveAwaiter) : Prop where
  before : s.awaiters a = some w
  suspended : w.suspended = true
  after : ∃ w' : AsyncReceiveAwaiter, w'.suspended = false ∧
    s'.awaiters = update s.awaiters a (some w')

/-- **What a step can do**: nothing to the queue and the awaiters; a new awaiter that ends at once,
or is suspended; an expired node at the front of the queue; an awaiter that goes on with data, after
its time, or with an error. -/
inductive Effect (s : IoCtx) (act : Action) (s' : IoCtx) : Prop
  | keeps (hqueue : s'.timeQueue = s.timeQueue) (hawaiters : s'.awaiters = s.awaiters)
      (htasks : ∀ a, PostTask.timeout a ∈ s'.taskQueue ↔ PostTask.timeout a ∈ s.taskQueue)
      (hpolled : s'.control.polled = true →
        s.control.polled = true ∨ ∀ a, PostTask.timeout a ∉ s.taskQueue)
  | passes (a : ℕ) (w : AsyncReceiveAwaiter) (hnew : s.awaiters a = none)
      (hsuspended : w.suspended = false) (hqueue : s'.timeQueue = s.timeQueue.init (some a))
      (hawaiters : s'.awaiters = update s.awaiters a (some w))
      (htasks : s'.taskQueue = s.taskQueue) (hcontrol : s'.control = s.control)
  | suspends (a : ℕ) (w : AsyncReceiveAwaiter) (hnew : s.awaiters a = none)
      (hsuspended : w.suspended = true) (hresult : w.result = none)
      (hqueue : s'.timeQueue =
        if w.timeoutFlag = true then
          (s.timeQueue.init (some a)).push ((s.timeQueue.init (some a)).prev none) (some a)
        else s.timeQueue.init (some a))
      (hawaiters : s'.awaiters = update s.awaiters a (some w))
      (htasks : s'.taskQueue = s.taskQueue) (hcontrol : s'.control = s.control)
  | expires (a : ℕ) (hexpired : expired s act = some a) (hfront : s.timeQueue.next none = some a)
      (hqueue : s'.timeQueue = (s.timeQueue.removeSelf (some a)).removeSelf (some a))
      (hawaiters : s'.awaiters = s.awaiters) (htasks : s'.taskQueue = s.taskQueue ++ [.timeout a])
      (hcontrol : s'.control.polled = false)
  | receives (a : ℕ) (w : AsyncReceiveAwaiter) (hresumed : Resumed s s' a w)
      (hqueue : s'.timeQueue =
        if w.timeoutFlag = true then s.timeQueue.removeSelf (some a) else s.timeQueue)
      (htasks : s'.taskQueue = s.taskQueue) (hpolled : s.control.polled = true)
      (hresumes : a ∈ s.control.resumes)
  | timesOut (a : ℕ) (w : AsyncReceiveAwaiter) (hresumed : Resumed s s' a w)
      (hqueue : s'.timeQueue = s.timeQueue) (htasks : s.taskQueue = .timeout a :: s'.taskQueue)
      (hcontrol : s'.control.polled = false) (hact : act = .pop)
  | fails (a : ℕ) (w : AsyncReceiveAwaiter) (hfailing : failing s act = some a)
      (hresumed : Resumed s s' a w) (hqueue : s'.timeQueue = s.timeQueue)
      (htasks : s'.taskQueue = s.taskQueue)
      (hpolled : s'.control.polled = true → s.control.polled = true)

/-! ### The inversion -/

theorem popRecvAwaiter_spec {s s' : IoCtx} {w : AsyncReceiveAwaiter}
    (h : popRecvAwaiter s w = some s') : ∃ conns, s' = { s with conns := conns } := by
  rw [popRecvAwaiter] at h
  split at h
  · split at h
    · cases h
    · split at h
      · cases h
      · cases h
        exact ⟨_, rfl⟩
  · cases h
    exact ⟨_, rfl⟩

/-- `await_resume`: the node is taken out only after data. -/
theorem awaitResume_spec {s s' : IoCtx} {a : ℕ} {w : AsyncReceiveAwaiter}
    (h : awaitResume s a w = some s') :
    (∃ o, s'.awaiters = update s.awaiters a (some { w with suspended := false, result := some o }))
    ∧ s'.timeQueue = (if 0 ≤ w.bytesTransfer ∧ w.timeoutFlag = true then
        s.timeQueue.removeSelf (some a) else s.timeQueue)
    ∧ s'.taskQueue = s.taskQueue ∧ s'.control = s.control := by
  rw [awaitResume] at h
  split at h
  · rename_i hclosed
    have hneg : ¬(0 ≤ w.bytesTransfer ∧ w.timeoutFlag = true) := by
      rw [hclosed]
      exact fun h => absurd h.1 (by decide)
    cases h
    exact ⟨⟨_, rfl⟩, (if_neg hneg).symm, rfl, rfl⟩
  split at h
  · rename_i htime
    have hneg : ¬(0 ≤ w.bytesTransfer ∧ w.timeoutFlag = true) := by
      rw [htime]
      exact fun h => absurd h.1 (by decide)
    cases h
    exact ⟨⟨_, rfl⟩, (if_neg hneg).symm, rfl, rfl⟩
  split at h
  · cases h
  · rename_i hpop
    obtain ⟨conns, rfl⟩ := popRecvAwaiter_spec hpop
    split at h
    · rename_i hbytes
      cases h
      exact ⟨⟨_, rfl⟩, (if_neg fun h => absurd h.1 (Int.not_le.mpr hbytes)).symm, rfl, rfl⟩
    · rename_i hbytes
      split at h
      · rename_i hflag
        cases h
        exact ⟨⟨_, rfl⟩, (if_pos ⟨Int.not_lt.mp hbytes, hflag⟩).symm, rfl, rfl⟩
      · rename_i hflag
        cases h
        exact ⟨⟨_, rfl⟩, (if_neg fun h => hflag h.2).symm, rfl, rfl⟩

theorem resume_spec {s s' : IoCtx} {a : ℕ} {bytesTransfer : ℤ}
    (h : resume s a bytesTransfer = some s') :
    ∃ w, Resumed s s' a w ∧
      s'.timeQueue = (if 0 ≤ bytesTransfer ∧ w.timeoutFlag = true then
        s.timeQueue.removeSelf (some a) else s.timeQueue)
      ∧ s'.taskQueue = s.taskQueue ∧ s'.control = s.control := by
  rw [resume] at h
  cases hw : s.awaiters a with
  | none => simp [hw] at h
  | some w =>
    simp only [hw, Option.ite_none_right_eq_some] at h
    obtain ⟨hsuspended, h⟩ := h
    obtain ⟨hafter, hqueue, htasks, hcontrol⟩ := awaitResume_spec h
    obtain ⟨o, hafter⟩ := hafter
    exact ⟨w, ⟨hw, hsuspended, _, rfl, hafter⟩, hqueue, htasks, hcontrol⟩

/-- A new awaiter whose `co_await` ends at once. -/
theorem effect_passes {s s' : IoCtx} {act : Action} {a : ℕ} {w : AsyncReceiveAwaiter}
    (hnew : s.awaiters a = none)
    (h : awaitResume { s with timeQueue := s.timeQueue.init (some a) } a w = some s') :
    Effect s act s' := by
  obtain ⟨⟨o, hawaiters⟩, hqueue, htasks, hcontrol⟩ := awaitResume_spec h
  refine .passes a _ hnew rfl ?_ hawaiters htasks hcontrol
  rw [hqueue]
  split
  · exact Links.init_removeSelf _ _
  · rfl

theorem effect_suspends {s : IoCtx} {act : Action} {a : ℕ} {w : AsyncReceiveAwaiter}
    {conn : ConnImpl} {now : ℕ} (hnew : s.awaiters a = none) (hresult : w.result = none) :
    Effect s act (suspend { s with timeQueue := s.timeQueue.init (some a) } a w conn now) := by
  rw [suspend]
  split
  · rename_i hflag
    exact .suspends a { w with expire := _, suspendReturn := true, suspended := true } hnew rfl
      hresult (if_pos hflag).symm rfl rfl rfl
  · rename_i hflag
    exact .suspends a { w with expire := _, suspendReturn := true, suspended := true } hnew rfl
      hresult (if_neg hflag).symm rfl rfl rfl

theorem effect_receive {s s' : IoCtx} {act : Action} {a c n : ℕ} {timeOutFlag : Bool} {r : Recv}
    {now : ℕ} (hnew : s.awaiters a = none)
    (h : receive s a (AsyncReceiveAwaiter.new c n timeOutFlag) r now = some s') :
    Effect s act s' := by
  rw [receive] at h
  split at h
  · cases h
  · split at h
    · exact effect_passes hnew h
    · split at h
      · cases r with
        | bytes n => exact effect_passes hnew h
        | again =>
          cases h
          exact effect_suspends hnew rfl
        | error =>
          cases h
          exact .passes a _ hnew rfl rfl rfl rfl rfl
      · cases h
        exact effect_suspends hnew rfl

theorem effect_onTimeout {s s' : IoCtx} {a : ℕ} {tasks : List PostTask}
    (hfront : s.taskQueue = .timeout a :: tasks)
    (h : onTimeout { s with taskQueue := tasks, control := .top } a = some s') :
    Effect s .pop s' := by
  rw [onTimeout] at h
  split at h
  · cases h
  · split at h
    · cases h
    · obtain ⟨w, hresumed, hqueue, htasks, hcontrol⟩ := resume_spec h
      refine .timesOut a w ⟨hresumed.before, hresumed.suspended, hresumed.after⟩ hqueue ?_ ?_ rfl
      · rw [hfront, htasks]
      · rw [hcontrol]
        rfl

/-- The scan of the time queue, at its front. -/
theorem effect_expire {multiple : Bool} {s s' : IoCtx}
    (h : step multiple s .expire = some s') : Effect s .expire s' := by
  rw [step] at h
  split at h
  · rename_i now hcontrol
    split at h
    · cases h
      exact .keeps rfl rfl (fun _ => Iff.rfl) fun h => by cases h
    · rename_i a hfront
      split at h
      · cases h
      · rename_i w hw
        split at h
        · rename_i hexpire
          split at h
          · cases h
          · cases h
            refine .expires a ?_ hfront rfl rfl rfl ?_
            · simp only [expired, hcontrol, hfront, hw, if_pos hexpire]
            · show s.control.polled = false
              rw [hcontrol]
              rfl
        · cases h
          exact .keeps rfl rfl (fun _ => Iff.rfl) fun h => by cases h
  · cases h

/-- The next task of the queue. -/
theorem effect_pop {multiple : Bool} {s s' : IoCtx}
    (h : step multiple s .pop = some s') : Effect s .pop s' := by
  rw [step] at h
  split at h
  · split at h
    · rename_i hempty
      cases h
      refine .keeps rfl rfl (fun _ => Iff.rfl) fun _ => .inr fun a => ?_
      rw [hempty]
      exact List.not_mem_nil
    · rename_i tasks hfront
      cases h
      refine .keeps rfl rfl (fun a => ?_) fun h => by cases h
      simp [hfront]
    · rename_i a tasks hfront
      exact effect_onTimeout hfront h
    · rename_i c tasks hfront
      split at h
      · cases h
      · cases h
        refine .keeps rfl rfl (fun a => ?_) fun h => by cases h
        simp [hfront]
  · cases h

/-- What `recv` brings to the awaiter that is next. -/
theorem effect_recv {multiple : Bool} {s s' : IoCtx} {r : Recv}
    (h : step multiple s (.recv r) = some s') : Effect s (.recv r) s' := by
  rw [step] at h
  split at h
  · rename_i c a rest hcontrol
    have hpolled : s.control.polled = true := by
      rw [hcontrol]
      rfl
    split at h
    · cases h
      exact .keeps rfl rfl (fun _ => Iff.rfl) fun _ => .inl hpolled
    · rename_i n _ _ _
      obtain ⟨w, hresumed, hqueue, htasks, -⟩ := resume_spec h
      refine .receives a w ⟨hresumed.before, hresumed.suspended, hresumed.after⟩ ?_ htasks hpolled
        ?_
      · rw [hqueue]
        simp only [Int.natCast_nonneg, true_and]
      · rw [hcontrol]
        exact List.mem_cons_self
    · obtain ⟨w, hresumed, hqueue, htasks, -⟩ := resume_spec h
      refine .fails a w ?_ ⟨hresumed.before, hresumed.suspended, hresumed.after⟩ hqueue htasks
        fun _ => hpolled
      rw [failing, hcontrol]
    · cases h
  · cases h

/-- The end of a round of events. -/
theorem effect_done {multiple : Bool} {s s' : IoCtx}
    (h : step multiple s .done = some s') : Effect s .done s' := by
  rw [step] at h
  split at h
  · cases h
    exact .keeps rfl rfl (fun _ => Iff.rfl) fun h => by cases h
  · cases h
    exact .keeps rfl rfl (fun _ => Iff.rfl) fun h => by cases h
  · rename_i hcontrol
    cases h
    refine .keeps rfl rfl (fun _ => Iff.rfl) fun _ => .inl ?_
    rw [hcontrol]
    rfl
  · rename_i hcontrol
    split at h
    · cases h
    · cases h
      refine .keeps rfl rfl (fun _ => Iff.rfl) fun _ => .inl ?_
      rw [hcontrol]
      rfl
  · cases h

/-- **Inversion of a step.** -/
theorem effect_of_step {multiple : Bool} {s s' : IoCtx} {act : Action}
    (h : step multiple s act = some s') : Effect s act s' := by
  cases act with
  | connect c =>
    rw [step] at h
    split at h
    · cases h
    · cases h
      exact .keeps rfl rfl (fun _ => Iff.rfl) fun h => .inl h
  | receive a c n timeOutFlag r now =>
    rw [step] at h
    split at h
    · cases h
    · rename_i hnew
      exact effect_receive hnew h
  | shutdownRecv c =>
    rw [step] at h
    split at h
    · cases h
    · cases h
      exact .keeps rfl rfl (fun _ => Iff.rfl) fun h => .inl h
  | close c =>
    rw [step] at h
    split at h
    · cases h
    · rw [Option.ite_none_right_eq_some] at h
      obtain ⟨-, h⟩ := h
      cases h
      refine .keeps rfl rfl (fun a => ?_) fun h => .inl h
      simp
  | post =>
    cases h
    refine .keeps rfl rfl (fun a => ?_) fun h => .inl h
    simp
  | clock now =>
    rw [step] at h
    split at h
    · cases h
      exact .keeps rfl rfl (fun _ => Iff.rfl) fun h => by cases h
    · cases h
  | expire => exact effect_expire h
  | pop => exact effect_pop h
  | wake =>
    rw [step] at h
    split at h
    · rename_i a rest hcontrol
      obtain ⟨w, hresumed, hqueue, htasks, hcontrol'⟩ := resume_spec h
      refine .fails a w ?_ ⟨hresumed.before, hresumed.suspended, hresumed.after⟩ hqueue htasks ?_
      · rw [failing, hcontrol]
      · rw [hcontrol']
        intro h
        cases h
    · cases h
  | readable c =>
    rw [step] at h
    split at h
    · rename_i hcontrol
      split at h
      · cases h
      · split at h
        · cases h
          refine .keeps rfl rfl (fun _ => Iff.rfl) fun _ => .inl ?_
          rw [hcontrol]
          rfl
        · cases h
          exact .keeps rfl rfl (fun _ => Iff.rfl) fun h => .inl h
    · cases h
  | recv r => exact effect_recv h
  | done => exact effect_done h

/-! ### The invariant -/

/-- The nodes of the queue are the awaiters that wait; a posted expiry is that of an awaiter, and
none is left when the loop handles events; what has ended is not suspended. -/
structure TimeQueue (s : IoCtx) : Prop where
  ring : ∃ l : List ℕ, Ring s.timeQueue none (l.map some) ∧ ∀ a, a ∈ l ↔ s.Waits a
  fresh : ∀ a, s.awaiters a = none → PostTask.timeout a ∉ s.taskQueue
  polled : s.control.polled = true → ∀ a, PostTask.timeout a ∉ s.taskQueue
  ended : ∀ a w, s.awaiters a = some w → w.result.isSome = true → w.suspended = false

theorem timeQueue_start (multiple : Bool) : TimeQueue (eventLoop multiple).start where
  ring := by
    refine ⟨[], ring_alone none, fun a => ⟨fun h => absurd h List.not_mem_nil, fun h => ?_⟩⟩
    obtain ⟨⟨w, hw, -⟩, -⟩ := h
    cases hw
  fresh _ _ := List.not_mem_nil
  polled h := by cases h
  ended a w hw := by cases hw

theorem waits_congr {s s' : IoCtx} {b : ℕ} (hawaiters : s'.awaiters b = s.awaiters b)
    (htasks : PostTask.timeout b ∈ s'.taskQueue ↔ PostTask.timeout b ∈ s.taskQueue) :
    s'.Waits b ↔ s.Waits b := by
  rw [IoCtx.Waits, IoCtx.Waits, IoCtx.Suspended, IoCtx.Suspended, hawaiters, htasks]

/-- A new awaiter does not wait yet. -/
theorem not_waits_of_new {s : IoCtx} {a : ℕ} (hnew : s.awaiters a = none) : ¬s.Waits a := by
  intro h
  obtain ⟨⟨w, hw, -⟩, -⟩ := h
  rw [hnew] at hw
  cases hw

/-- An awaiter that is not suspended does not wait. -/
theorem not_suspended {s s' : IoCtx} {a : ℕ} {w : AsyncReceiveAwaiter}
    (hawaiters : s'.awaiters = update s.awaiters a (some w)) (hsuspended : w.suspended = false) :
    ¬s'.Suspended a := by
  intro h
  obtain ⟨v, hv, hsusp, -⟩ := h
  rw [hawaiters, update_self] at hv
  cases hv
  rw [hsuspended] at hsusp
  cases hsusp

/-- The node of an awaiter that is not in the list is not in its ring. -/
theorem notMem_nodes {l : List ℕ} {a : ℕ} (h : a ∉ l) :
    some a ∉ (none : Option ℕ) :: l.map some := by
  intro hmem
  cases List.mem_cons.mp hmem with
  | inl h => cases h
  | inr hmap =>
    obtain ⟨b, hb, hba⟩ := List.mem_map.mp hmap
    cases hba
    exact h hb

/-- The nodes that are linked are those of the queue. -/
theorem TimeQueue.linked_iff {s : IoCtx} (hs : TimeQueue s) (a : ℕ) : s.Linked a ↔ s.Waits a := by
  obtain ⟨l, hring, hl⟩ := hs.ring
  rw [IoCtx.Linked, hring.reaches_iff, ← hl]
  refine ⟨fun hmem => ?_, fun hmem => List.mem_cons_of_mem _ (List.mem_map_of_mem hmem)⟩
  by_contra hnot
  exact notMem_nodes hnot hmem

/-- The awaiters of a step that changes one. -/
theorem ended_update {s s' : IoCtx} {a : ℕ} {w : AsyncReceiveAwaiter} (hs : TimeQueue s)
    (hawaiters : s'.awaiters = update s.awaiters a (some w))
    (hw : w.result.isSome = true → w.suspended = false) :
    ∀ b v, s'.awaiters b = some v → v.result.isSome = true → v.suspended = false := by
  intro b v hv
  rw [hawaiters] at hv
  by_cases hb : b = a
  · rw [hb, update_self] at hv
    cases hv
    exact hw
  · rw [update_of_ne hb] at hv
    exact hs.ended b v hv

theorem fresh_update {s s' : IoCtx} {a : ℕ} {w : AsyncReceiveAwaiter} (hs : TimeQueue s)
    (hawaiters : s'.awaiters = update s.awaiters a (some w))
    (htasks : ∀ b, PostTask.timeout b ∈ s'.taskQueue → PostTask.timeout b ∈ s.taskQueue) :
    ∀ b, s'.awaiters b = none → PostTask.timeout b ∉ s'.taskQueue := by
  intro b hb hmem
  rw [hawaiters] at hb
  by_cases hba : b = a
  · rw [hba, update_self] at hb
    cases hb
  · rw [update_of_ne hba] at hb
    exact hs.fresh b hb (htasks b hmem)

/-- The list of the queue after a step that changes one awaiter. -/
theorem mem_iff_of_update {s s' : IoCtx} {a : ℕ} {w : AsyncReceiveAwaiter} {l l' : List ℕ}
    (hl : ∀ b, b ∈ l ↔ s.Waits b) (hawaiters : s'.awaiters = update s.awaiters a (some w))
    (htasks : ∀ b, b ≠ a →
      (PostTask.timeout b ∈ s'.taskQueue ↔ PostTask.timeout b ∈ s.taskQueue))
    (hother : ∀ b, b ≠ a → (b ∈ l' ↔ b ∈ l)) (hself : a ∈ l' ↔ s'.Waits a) :
    ∀ b, b ∈ l' ↔ s'.Waits b := by
  intro b
  by_cases hb : b = a
  · rw [hb]
    exact hself
  · have hsame : s'.awaiters b = s.awaiters b := by rw [hawaiters, update_of_ne hb]
    rw [hother b hb, hl, waits_congr hsame (htasks b hb)]

/-- An awaiter that is not suspended any more is in no list of waiting awaiters. -/
theorem mem_iff_of_resumed {s s' : IoCtx} {a : ℕ} {w : AsyncReceiveAwaiter} {l : List ℕ}
    (hresumed : Resumed s s' a w) (hmem : a ∉ l) : a ∈ l ↔ s'.Waits a := by
  obtain ⟨w', hsuspended, hawaiters⟩ := hresumed.after
  exact iff_of_false hmem fun h => not_suspended hawaiters hsuspended h.1

/-- A list without one of its members. -/
theorem mem_append_of_ne {l r : List ℕ} {a b : ℕ} (hb : b ≠ a) :
    b ∈ l ++ r ↔ b ∈ l ++ a :: r := by
  rw [List.mem_append, List.mem_append, List.mem_cons]
  exact ⟨fun h => h.imp id .inr, fun h => h.imp id fun h => h.resolve_left hb⟩

section
variable {s s' : IoCtx} {a : ℕ} {w : AsyncReceiveAwaiter}

/-- A ring of numbered nodes has every number once. -/
theorem nodup_of_ring {g : Links (Option ℕ)} {l : List ℕ} (hring : Ring g none (l.map some)) :
    l.Nodup := (List.nodup_cons.mp hring.nodup).2.of_map

/-- The node of a new awaiter comes to the back when it has the timeout flag. -/
theorem TimeQueue.suspends (hs : TimeQueue s) (hnew : s.awaiters a = none)
    (hsuspended : w.suspended = true) (hresult : w.result = none)
    (hqueue : s'.timeQueue =
      if w.timeoutFlag = true then
        (s.timeQueue.init (some a)).push ((s.timeQueue.init (some a)).prev none) (some a)
      else s.timeQueue.init (some a))
    (hawaiters : s'.awaiters = update s.awaiters a (some w)) (htasks : s'.taskQueue = s.taskQueue)
    (hcontrol : s'.control = s.control) : TimeQueue s' := by
  obtain ⟨l, hring, hl⟩ := hs.ring
  have hmem : a ∉ l := fun h => not_waits_of_new hnew ((hl a).mp h)
  have hinit := hring.init (notMem_nodes hmem)
  have hwaits : s'.Waits a ↔ w.timeoutFlag = true := by
    refine ⟨fun h => ?_, fun hflag => ⟨⟨w, ?_, hsuspended, hflag⟩, ?_⟩⟩
    · obtain ⟨⟨v, hv, -, hflag⟩, -⟩ := h
      rw [hawaiters, update_self] at hv
      cases hv
      exact hflag
    · rw [hawaiters, update_self]
    · rw [htasks]
      exact hs.fresh a hnew
  refine ⟨?_, ?_, ?_, ?_⟩
  · by_cases hflag : w.timeoutFlag = true
    · refine ⟨l ++ [a], ?_, ?_⟩
      · rw [hqueue, if_pos hflag, List.map_append]
        exact hinit.push (notMem_nodes hmem)
      · refine mem_iff_of_update hl hawaiters (fun b _ => ?_) (fun b hb => ?_) ?_
        · rw [htasks]
        · rw [List.mem_append, List.mem_singleton]
          exact or_iff_left hb
        · exact iff_of_true (List.mem_append_right _ (List.mem_singleton_self a))
            (hwaits.mpr hflag)
    · refine ⟨l, ?_, ?_⟩
      · rw [hqueue, if_neg hflag]
        exact hinit
      · refine mem_iff_of_update hl hawaiters (fun b _ => ?_) (fun _ _ => Iff.rfl) ?_
        · rw [htasks]
        · exact iff_of_false hmem fun h => hflag (hwaits.mp h)
  · refine fresh_update hs hawaiters fun b hb => ?_
    rwa [htasks] at hb
  · rw [hcontrol, htasks]
    exact hs.polled
  · refine ended_update hs hawaiters fun h => ?_
    rw [hresult] at h
    cases h

/-- The scan takes the first node out and posts its task. -/
theorem TimeQueue.expires (hs : TimeQueue s) (hfront : s.timeQueue.next none = some a)
    (hqueue : s'.timeQueue = (s.timeQueue.removeSelf (some a)).removeSelf (some a))
    (hawaiters : s'.awaiters = s.awaiters) (htasks : s'.taskQueue = s.taskQueue ++ [.timeout a])
    (hcontrol : s'.control.polled = false) : TimeQueue s' := by
  obtain ⟨l, hring, hl⟩ := hs.ring
  obtain ⟨r, rfl⟩ : ∃ r, l = a :: r := by
    rw [hring.next_head] at hfront
    cases l with
    | nil => cases hfront
    | cons b r =>
      cases hfront
      exact ⟨r, rfl⟩
  have hnodup := nodup_of_ring hring
  have hposted : ∀ b, b ≠ a →
      (PostTask.timeout b ∈ s'.taskQueue ↔ PostTask.timeout b ∈ s.taskQueue) := by
    intro b hb
    rw [htasks, List.mem_append, List.mem_singleton, PostTask.timeout.injEq]
    exact or_iff_left hb
  have hremove : Ring s'.timeQueue none (r.map some) := by
    rw [hqueue, Ring.removeSelf_removeSelf (l := []) hring]
    exact Ring.removeSelf (l := []) hring
  refine ⟨⟨r, hremove, fun b => ?_⟩, fun b hb => ?_, fun hp => ?_, ?_⟩
  · by_cases hb : b = a
    · rw [hb]
      refine iff_of_false (List.nodup_cons.mp hnodup).1 fun h => h.2 ?_
      rw [htasks]
      exact List.mem_append_right _ (List.mem_singleton_self _)
    · rw [waits_congr (congrFun hawaiters b) (hposted b hb), ← hl, List.mem_cons]
      exact (or_iff_right hb).symm
  · rw [hawaiters] at hb
    have hba : b ≠ a := fun hba => not_waits_of_new (hba ▸ hb) ((hl a).mp List.mem_cons_self)
    rw [hposted b hba]
    exact hs.fresh b hb
  · rw [hcontrol] at hp
    cases hp
  · rw [hawaiters]
    exact hs.ended

/-- An awaiter that receives data takes its node out. -/
theorem TimeQueue.receives (hs : TimeQueue s) (hresumed : Resumed s s' a w)
    (hqueue : s'.timeQueue =
      if w.timeoutFlag = true then s.timeQueue.removeSelf (some a) else s.timeQueue)
    (htasks : s'.taskQueue = s.taskQueue) (hpolled : s.control.polled = true) : TimeQueue s' := by
  obtain ⟨l, hring, hl⟩ := hs.ring
  obtain ⟨w', hsuspended, hawaiters⟩ := hresumed.after
  have hnone := hs.polled hpolled
  refine ⟨?_, ?_, fun _ => ?_, ended_update hs hawaiters fun _ => hsuspended⟩
  · by_cases hflag : w.timeoutFlag = true
    · have hwaits : s.Waits a := ⟨⟨w, hresumed.before, hresumed.suspended, hflag⟩, hnone a⟩
      obtain ⟨l₁, l₂, rfl⟩ := List.append_of_mem ((hl a).mpr hwaits)
      have hmem : a ∉ l₁ ++ l₂ := (List.nodup_middle.mp (nodup_of_ring hring)).notMem
      rw [List.map_append, List.map_cons] at hring
      refine ⟨l₁ ++ l₂, ?_, ?_⟩
      · rw [hqueue, if_pos hflag, List.map_append]
        exact hring.removeSelf
      · refine mem_iff_of_update hl hawaiters (fun b _ => ?_) (fun b hb => mem_append_of_ne hb)
          (mem_iff_of_resumed hresumed hmem)
        rw [htasks]
    · have hmem : a ∉ l := by
        intro h
        obtain ⟨⟨v, hv, -, hv'⟩, -⟩ := (hl a).mp h
        rw [hresumed.before] at hv
        cases hv
        exact hflag hv'
      refine ⟨l, ?_, ?_⟩
      · rw [hqueue, if_neg hflag]
        exact hring
      · refine mem_iff_of_update hl hawaiters (fun b _ => ?_) (fun _ _ => Iff.rfl)
          (mem_iff_of_resumed hresumed hmem)
        rw [htasks]
  · refine fresh_update hs hawaiters fun b hb => ?_
    rwa [htasks] at hb
  · rw [htasks]
    exact hnone

/-- An awaiter that goes on without its node being in the queue: it keeps the queue. -/
theorem TimeQueue.goesOn (hs : TimeQueue s) (hresumed : Resumed s s' a w) (hnot : ¬s.Waits a)
    (hqueue : s'.timeQueue = s.timeQueue)
    (htasks : ∀ b, PostTask.timeout b ∈ s'.taskQueue → PostTask.timeout b ∈ s.taskQueue)
    (hother : ∀ b, b ≠ a → PostTask.timeout b ∈ s.taskQueue → PostTask.timeout b ∈ s'.taskQueue)
    (hpolled : s'.control.polled = true → s.control.polled = true) : TimeQueue s' := by
  obtain ⟨l, hring, hl⟩ := hs.ring
  obtain ⟨w', hsuspended, hawaiters⟩ := hresumed.after
  have hmem : a ∉ l := fun h => hnot ((hl a).mp h)
  refine ⟨⟨l, ?_, ?_⟩, fresh_update hs hawaiters htasks, fun hp b hb => ?_,
    ended_update hs hawaiters fun _ => hsuspended⟩
  · rw [hqueue]
    exact hring
  · exact mem_iff_of_update hl hawaiters (fun b hb => ⟨htasks b, hother b hb⟩)
      (fun _ _ => Iff.rfl) (mem_iff_of_resumed hresumed hmem)
  · exact hs.polled (hpolled hp) b (htasks b hb)

end

/-- **A step keeps the invariant** unless it resumes an awaiter that waits with an error. -/
theorem TimeQueue.effect {s s' : IoCtx} {act : Action} (hs : TimeQueue s)
    (hok : ∀ a, failing s act = some a → ¬s.Waits a) (h : Effect s act s') : TimeQueue s' := by
  cases h with
  | keeps hqueue hawaiters htasks hpolled =>
    obtain ⟨l, hring, hl⟩ := hs.ring
    refine ⟨⟨l, ?_, fun a => ?_⟩, fun a ha => ?_, fun hp a => ?_, ?_⟩
    · rw [hqueue]
      exact hring
    · rw [hl, waits_congr (congrFun hawaiters a) (htasks a)]
    · rw [hawaiters] at ha
      rw [htasks]
      exact hs.fresh a ha
    · rw [htasks]
      cases hpolled hp with
      | inl hp => exact hs.polled hp a
      | inr hnone => exact hnone a
    · rw [hawaiters]
      exact hs.ended
  | passes a w hnew hsuspended hqueue hawaiters htasks hcontrol =>
    obtain ⟨l, hring, hl⟩ := hs.ring
    have hmem : a ∉ l := fun h => not_waits_of_new hnew ((hl a).mp h)
    have hself : a ∈ l ↔ s'.Waits a :=
      iff_of_false hmem fun h => not_suspended hawaiters hsuspended h.1
    refine ⟨⟨l, ?_, ?_⟩, ?_, ?_, ended_update hs hawaiters fun _ => hsuspended⟩
    · rw [hqueue]
      exact hring.init (notMem_nodes hmem)
    · refine mem_iff_of_update hl hawaiters (fun b _ => ?_) (fun _ _ => Iff.rfl) hself
      rw [htasks]
    · refine fresh_update hs hawaiters fun b hb => ?_
      rwa [htasks] at hb
    · rw [hcontrol, htasks]
      exact hs.polled
  | suspends a w hnew hsuspended hresult hqueue hawaiters htasks hcontrol =>
    exact hs.suspends hnew hsuspended hresult hqueue hawaiters htasks hcontrol
  | expires a hexpired hfront hqueue hawaiters htasks hcontrol =>
    exact hs.expires hfront hqueue hawaiters htasks hcontrol
  | receives a w hresumed hqueue htasks hpolled _ =>
    exact hs.receives hresumed hqueue htasks hpolled
  | timesOut a w hresumed hqueue htasks hcontrol _ =>
    have hnot : ¬s.Waits a := fun h => h.2 (htasks ▸ List.mem_cons_self)
    refine hs.goesOn hresumed hnot hqueue (fun b hb => ?_) (fun b hne hb => ?_) fun hp => ?_
    · rw [htasks]
      exact List.mem_cons_of_mem _ hb
    · rw [htasks, List.mem_cons, PostTask.timeout.injEq] at hb
      exact hb.resolve_left hne
    · rw [hcontrol] at hp
      cases hp
  | fails a w hfailing hresumed hqueue htasks hpolled =>
    refine hs.goesOn hresumed (hok a hfailing) hqueue (fun b hb => ?_) (fun b _ hb => ?_) hpolled
    · rwa [htasks] at hb
    · rwa [htasks]

/-! ### Every run -/

/-- The nodes that are linked are those of the awaiters with `P`, and no awaiter that has returned
or thrown is among them. -/
structure Exact (P : IoCtx → ℕ → Prop) (s : IoCtx) : Prop where
  linked : ∀ a, s.Linked a ↔ P s a
  ended : ∀ a w, s.awaiters a = some w → w.result.isSome = true → ¬s.Linked a

/-- The step resumes with an error an awaiter that waits. -/
def CutsOff (s : IoCtx) (act : Action) : Prop := ∃ a, failing s act = some a ∧ s.Waits a

instance (s : IoCtx) (a : ℕ) : Decidable (s.Suspended a) :=
  inferInstanceAs (Decidable (∃ w ∈ s.awaiters a, _))

instance (s : IoCtx) (act : Action) : Decidable (CutsOff s act) :=
  inferInstanceAs (Decidable
    (∃ a ∈ failing s act, s.Suspended a ∧ PostTask.timeout a ∉ s.taskQueue))

theorem TimeQueue.exact {s : IoCtx} (hs : TimeQueue s) : Exact IoCtx.Waits s := by
  refine ⟨hs.linked_iff, fun a w hw hresult hlinked => ?_⟩
  obtain ⟨⟨v, hv, hsuspended, -⟩, -⟩ := (hs.linked_iff a).mp hlinked
  rw [hw] at hv
  cases hv
  rw [hs.ended a w hw hresult] at hsuspended
  cases hsuspended

/-- Without posted expiries the awaiters that wait are all that are suspended. -/
theorem TimeQueue.exact_suspended {s : IoCtx} (hs : TimeQueue s)
    (hnone : ∀ a, PostTask.timeout a ∉ s.taskQueue) : Exact IoCtx.Suspended s :=
  ⟨fun a => (hs.linked_iff a).trans ⟨fun h => h.1, fun h => ⟨h, hnone a⟩⟩, hs.exact.ended⟩

theorem TimeQueue.of_step {multiple : Bool} {s s' : IoCtx} {act : Action} (hs : TimeQueue s)
    (hok : ¬CutsOff s act) (h : step multiple s act = some s') : TimeQueue s' :=
  hs.effect (fun a hfailing hwaits => hok ⟨a, hfailing, hwaits⟩) (effect_of_step h)

/-- An awaiter that goes on with an error leaves the queue as it is. -/
theorem failing_step {multiple : Bool} {s s' : IoCtx} {act : Action} {a : ℕ}
    (hfailing : failing s act = some a) (h : step multiple s act = some s') :
    s'.timeQueue = s.timeQueue ∧ ¬s'.Suspended a := by
  have hresume : ∃ control, resume { s with control := control } a (-1) = some s' := by
    cases act with
    | recv r =>
      cases r with
      | error =>
        rw [failing] at hfailing
        split at hfailing
        · rename_i c b rest hcontrol
          cases hfailing
          rw [step] at h
          simp only [hcontrol] at h
          exact ⟨_, h⟩
        · cases hfailing
      | bytes n => cases hfailing
      | again => cases hfailing
    | wake =>
      rw [failing] at hfailing
      split at hfailing
      · rename_i b rest hcontrol
        cases hfailing
        rw [step] at h
        simp only [hcontrol] at h
        exact ⟨_, h⟩
      · cases hfailing
    | _ => cases hfailing
  obtain ⟨control, h⟩ := hresume
  obtain ⟨w, hresumed, hqueue, -⟩ := resume_spec h
  obtain ⟨w', hsuspended, hawaiters⟩ := hresumed.after
  exact ⟨hqueue, not_suspended hawaiters hsuspended⟩

/-- The scan posts the task of an awaiter that stays suspended. -/
theorem expired_step {multiple : Bool} {s s' : IoCtx} {act : Action} {a : ℕ}
    (hexpired : expired s act = some a) (h : step multiple s act = some s') :
    s'.awaiters = s.awaiters ∧ PostTask.timeout a ∈ s'.taskQueue ∧
      s.timeQueue.next none = some a := by
  cases act with
  | expire =>
    rw [expired] at hexpired
    split at hexpired
    · rename_i now b hcontrol hfront
      split at hexpired
      · rename_i w hw
        rw [Option.ite_none_right_eq_some] at hexpired
        obtain ⟨hexpire, hb⟩ := hexpired
        cases hb
        rw [step] at h
        simp only [hcontrol, hfront, hw, if_pos hexpire] at h
        split at h
        · cases h
        · cases h
          exact ⟨rfl, List.mem_append_right _ (List.mem_singleton_self _), hfront⟩
      · cases hexpired
    · cases hexpired
  | _ => cases hexpired

/-- The awaiter that was cut off is still linked. -/
theorem linked_of_cutsOff {multiple : Bool} {s s' : IoCtx} {act : Action} (hs : TimeQueue s)
    (hcut : CutsOff s act) (h : step multiple s act = some s') :
    ∃ a, s'.Linked a ∧ ¬s'.Suspended a := by
  obtain ⟨a, hfailing, hwaits⟩ := hcut
  obtain ⟨hqueue, hsuspended⟩ := failing_step hfailing h
  refine ⟨a, ?_, hsuspended⟩
  rw [IoCtx.Linked, hqueue]
  exact (hs.linked_iff a).mpr hwaits

/-- An expired awaiter is suspended, but not linked any more. -/
theorem not_linked_of_expired {multiple : Bool} {s s' : IoCtx} {act : Action} {a : ℕ}
    (hs : TimeQueue s) (hs' : TimeQueue s') (hexpired : expired s act = some a)
    (h : step multiple s act = some s') : s'.Suspended a ∧ ¬s'.Linked a := by
  obtain ⟨hawaiters, hposted, hfront⟩ := expired_step hexpired h
  have hlinked : s.Linked a := ⟨1, hfront⟩
  have hwaits := (hs.linked_iff a).mp hlinked
  refine ⟨?_, fun hlinked' => ((hs'.linked_iff a).mp hlinked').2 hposted⟩
  rw [IoCtx.Suspended, hawaiters]
  exact hwaits.1

/-- Without an expired node no expiry is posted. -/
theorem not_posted_of_step {multiple : Bool} {s s' : IoCtx} {act : Action}
    (hnone : ∀ a, PostTask.timeout a ∉ s.taskQueue) (hexpired : expired s act = none)
    (h : step multiple s act = some s') : ∀ a, PostTask.timeout a ∉ s'.taskQueue := by
  intro b
  cases effect_of_step h with
  | keeps hqueue hawaiters htasks hpolled =>
    rw [htasks]
    exact hnone b
  | passes a w hnew hsuspended hqueue hawaiters htasks hcontrol =>
    rw [htasks]
    exact hnone b
  | suspends a w hnew hsuspended hresult hqueue hawaiters htasks hcontrol =>
    rw [htasks]
    exact hnone b
  | expires a hexpired' hfront hqueue hawaiters htasks hcontrol =>
    rw [hexpired] at hexpired'
    cases hexpired'
  | receives a w hresumed hqueue htasks hpolled _ =>
    rw [htasks]
    exact hnone b
  | timesOut a w hresumed hqueue htasks hcontrol _ =>
    exact absurd (htasks ▸ List.mem_cons_self) (hnone a)
  | fails a w hfailing hresumed hqueue htasks hpolled =>
    rw [htasks]
    exact hnone b

/-- **The time queue holds exactly the suspended awaiters** throughout a run if and only if no
awaiter of the queue is resumed with an error and none expires.  With the awaiters whose expiry has
been posted left aside, the first is enough, and again necessary. -/
theorem timeQueue_exact_iff {multiple : Bool} {as : List Action} {s : IoCtx}
    (hrun : (eventLoop multiple).run (eventLoop multiple).start as = some s) :
    ((eventLoop multiple).Throughout (Exact IoCtx.Suspended) (eventLoop multiple).start as ↔
      (eventLoop multiple).Meets (fun s act => ¬CutsOff s act ∧ expired s act = none)
        (eventLoop multiple).start as) ∧
    ((eventLoop multiple).Throughout (Exact IoCtx.Waits) (eventLoop multiple).start as ↔
      (eventLoop multiple).Meets (fun s act => ¬CutsOff s act) (eventLoop multiple).start as) := by
  constructor
  · refine System.throughout_iff (I := fun s => TimeQueue s ∧ ∀ a, PostTask.timeout a ∉ s.taskQueue)
      (fun s hs => hs.1.exact_suspended hs.2) ?_ ?_ as
      ⟨timeQueue_start multiple, fun _ => List.not_mem_nil⟩ hrun
    · intro s act s' hs hok h
      exact ⟨hs.1.of_step hok.1 h, not_posted_of_step hs.2 hok.2 h⟩
    · intro s act s' hs hok h hexact
      by_cases hcut : CutsOff s act
      · obtain ⟨a, hlinked, hsuspended⟩ := linked_of_cutsOff hs.1 hcut h
        exact hsuspended ((hexact.linked a).mp hlinked)
      · cases hexpired : expired s act with
        | none => exact hok ⟨hcut, hexpired⟩
        | some a =>
          obtain ⟨hsuspended, hlinked⟩ :=
            not_linked_of_expired hs.1 (hs.1.of_step hcut h) hexpired h
          exact hlinked ((hexact.linked a).mpr hsuspended)
  · refine System.throughout_iff (I := TimeQueue) (fun s hs => hs.exact)
      (fun s act s' hs hok h => hs.of_step hok h) ?_ as (timeQueue_start multiple) hrun
    intro s act s' hs hok h hexact
    obtain ⟨a, hlinked, hsuspended⟩ := linked_of_cutsOff hs (not_not.mp hok) h
    exact hsuspended ((hexact.linked a).mp hlinked).1

/-- A read that gets its data, and one whose time is over. -/
def echoRun : List Action :=
  [.connect 0, .receive 0 0 100 true .again 5, .clock 6, .expire, .pop, .readable 0,
    .recv (.bytes 20), .receive 1 0 100 true .again 7, .done, .done, .clock 10000000008, .expire,
    .expire, .pop]

/-- The run is exact but for the awaiter whose expiry has been posted, and its first nine steps are
exact without exception. -/
theorem timeQueue_exact_iff_echo :
    (eventLoop false).Throughout (Exact IoCtx.Waits) (eventLoop false).start echoRun ∧
      ¬(eventLoop false).Throughout (Exact IoCtx.Suspended) (eventLoop false).start echoRun ∧
      (eventLoop false).Throughout (Exact IoCtx.Suspended) (eventLoop false).start
        (echoRun.take 9) ∧
      ∃ s, (eventLoop false).run (eventLoop false).start echoRun = some s ∧
        (s.awaiters 0).map AsyncReceiveAwaiter.result = some (some (.returned 20)) ∧
        (s.awaiters 1).map AsyncReceiveAwaiter.result = some (some .timeOut) := by
  have hexpires : ¬(eventLoop false).Meets (fun s act => ¬CutsOff s act ∧ expired s act = none)
      (eventLoop false).start echoRun := by decide
  exact ⟨(timeQueue_exact_iff rfl).2.mpr (by decide),
    fun hexact => hexpires ((timeQueue_exact_iff rfl).1.mp hexact),
    (timeQueue_exact_iff rfl).1.mpr (by decide), _, rfl, rfl, rfl⟩

/-- **A reset connection leaves its node in the queue**: the awaiter has thrown, and is linked. -/
theorem reset_stays_linked :
    ∃ s, (eventLoop false).run (eventLoop false).start
      [.connect 0, .receive 0 0 100 true .again 5, .clock 6, .expire, .pop, .readable 0,
        .recv .error] = some s ∧
      (s.awaiters 0).map AsyncReceiveAwaiter.result = some (some .recvError) ∧ s.Linked 0 ∧
      ¬s.Suspended 0 := by
  refine ⟨_, rfl, rfl, ⟨1, rfl⟩, fun h => ?_⟩
  obtain ⟨w, hw, hsuspended, -⟩ := h
  cases hw
  cases hsuspended

end Rojcpp.Tinyasync
