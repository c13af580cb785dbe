import Rojcpp.Lib.System
import Rojcpp.Tinyasync.ExpiryScan

/-!
# `timeQueue`

A queue of nodes is a ring of pointers through the head that the queue owns.  `push` sets the expire
time of a node and puts it at the back, `pop` takes out the front node, and a node takes itself out
wherever it is.

`fifo` is what the queue is for: a list, to which a node is pushed that is not in it, and from which
one is removed that is.  `timeQueue_fifo` says that after any such history the pointers hold the
list, and `scansAll_after_calls` that the expiry scan of a single thread then finds every expired
node.
-/

namespace Rojcpp.Tinyasync

open Function Rojcpp.Lib

variable {N : Type} [DecidableEq N]

/-! ### The code -/

/-- A queue and the nodes of the program; the pointer `none` is `&m_head`. -/
structure NodeQueue (N : Type) where
  links : Links (Option N)
  expire : N → ℤ

namespace NodeQueue

/-- The constructors: every node is alone, and has no expire time yet. -/
def new (expire : N → ℤ) : NodeQueue N := ⟨Links.alone _, expire⟩

/-- `front`. -/
def front (s : NodeQueue N) : Option N := s.links.next none

/-- `back`. -/
def back (s : NodeQueue N) : Option N := s.links.prev none

/-- `empty`. -/
def empty (s : NodeQueue N) : Bool := s.links.next none == none

/-- `timeQueue::push`, when the clock shows `now`. -/
def push (duration now : ℤ) (s : NodeQueue N) (node : N) : NodeQueue N :=
  { links := s.links.push s.back (some node)
    expire := update s.expire node (now + duration) }

/-- `remove_self`: what it returns, and the queue behind it. -/
def removeSelf (s : NodeQueue N) (this : Option N) : Bool × NodeQueue N :=
  (s.links.prev this == s.links.next this, { s with links := s.links.removeSelf this })

/-- `pop`. -/
def pop (s : NodeQueue N) : NodeQueue N :=
  if s.empty = false then (s.removeSelf s.front).2 else s

end NodeQueue

/-- The calls on a queue and its nodes. -/
inductive QueueCall (N : Type) where
  | push (node : N) (now : ℤ)
  | pop
  | removeSelf (node : N)

/-- One call. -/
def NodeQueue.call (duration : ℤ) (s : NodeQueue N) : QueueCall N → NodeQueue N
  | .push node now => s.push duration now node
  | .pop => s.pop
  | .removeSelf node => (s.removeSelf (some node)).2

/-- All calls of a history. -/
def NodeQueue.calls (duration : ℤ) (s : NodeQueue N) (cs : List (QueueCall N)) : NodeQueue N :=
  cs.foldl (NodeQueue.call duration) s

/-! ### The list -/

/-- What a queue is for: the nodes pushed and not removed yet, in their order.  No call pushes a
node that is in the list or removes one that is not. -/
def fifo (N : Type) [DecidableEq N] : System (List N) (QueueCall N) where
  start := []
  step l
    | .push node _ => if node ∈ l then none else some (l ++ [node])
    | .pop => some l.tail
    | .removeSelf node => if node ∈ l then some (l.erase node) else none

/-- What the clock showed at each `push`. -/
def pushTimes (cs : List (QueueCall N)) : List ℤ :=
  cs.filterMap fun c => match c with
    | .push _ now => some now
    | .pop => none
    | .removeSelf _ => none

/-- The pointers of a queue hold a list. -/
structure Holds (s : NodeQueue N) (l : List N) : Prop where
  inverse : ∀ p ∈ none :: l.map some,
    s.links.prev (s.links.next p) = p ∧ s.links.next (s.links.prev p) = p
  read : ∀ fuel, l.length ≤ fuel → s.links.read none fuel none = l.map some
  empty : s.empty = true ↔ l = []
  last : ∀ node ∈ l, (s.removeSelf (some node)).1 = true ↔
    (s.removeSelf (some node)).2.empty = true
  again : ∀ node ∈ l, ((s.removeSelf (some node)).2.removeSelf (some node)).2 =
    (s.removeSelf (some node)).2

/-! ### One call -/

section
variable {s : NodeQueue N} {l r : List N} {node : N}

theorem NodeQueue.empty_iff (hr : Ring s.links none (l.map some)) : s.empty = true ↔ l = [] := by
  rw [NodeQueue.empty, beq_iff_eq, hr.next_head]
  cases l with
  | nil => exact iff_of_true rfl rfl
  | cons a l => exact iff_of_false (Option.some_ne_none a) (List.cons_ne_nil a l)

/-- A list is cut at one of its nodes. -/
theorem exists_cut (h : node ∈ l) : ∃ a b, l = a ++ node :: b ∧ l.erase node = a ++ b := by
  obtain ⟨a, b, hnot, rfl, herase⟩ := List.exists_erase_eq h
  exact ⟨a, b, rfl, herase⟩

theorem ring_removeSelf (hr : Ring s.links none (l.map some)) (h : node ∈ l) :
    Ring (s.removeSelf (some node)).2.links none ((l.erase node).map some) := by
  obtain ⟨a, b, rfl, herase⟩ := exists_cut h
  rw [List.map_append, List.map_cons] at hr
  rw [herase, List.map_append]
  exact hr.removeSelf

theorem ring_push {duration now : ℤ} (hr : Ring s.links none (l.map some)) (h : node ∉ l) :
    Ring (s.push duration now node).links none ((l ++ [node]).map some) := by
  have hnew : some node ∉ none :: l.map some := by
    intro hmem
    obtain ⟨a, ha, hsome⟩ :=
      List.mem_map.mp ((List.mem_cons.mp hmem).resolve_left (Option.some_ne_none node))
    exact h (Option.some.inj hsome ▸ ha)
  rw [List.map_append]
  exact hr.push hnew

theorem ring_pop (hr : Ring s.links none (l.map some)) :
    Ring s.pop.links none (l.tail.map some) := by
  have hempty := NodeQueue.empty_iff hr
  cases l with
  | nil =>
    rw [NodeQueue.pop, hempty.mpr rfl]
    exact hr
  | cons a l =>
    have hfull : s.empty = false :=
      Bool.eq_false_iff.mpr fun h => List.cons_ne_nil a l (hempty.mp h)
    have hfront : s.front = some a := hr.next_head
    have hring := ring_removeSelf hr (List.mem_cons_self (a := a) (l := l))
    rw [List.erase_cons_head] at hring
    rw [NodeQueue.pop, if_pos hfull, hfront]
    exact hring

/-- **A ring holds its list.** -/
theorem holds_of_ring (hr : Ring s.links none (l.map some)) : Holds s l where
  inverse := hr.inverse
  read fuel hfuel := hr.read (by rw [List.length_map]; exact hfuel)
  empty := NodeQueue.empty_iff hr
  last node hnode := by
    rw [NodeQueue.empty_iff (ring_removeSelf hr hnode)]
    obtain ⟨a, b, rfl, herase⟩ := exists_cut hnode
    rw [List.map_append, List.map_cons] at hr
    rw [herase, NodeQueue.removeSelf, beq_iff_eq, hr.prev_eq_next_iff, ← List.map_append,
      List.map_eq_nil_iff]
  again node hnode := by
    obtain ⟨a, b, rfl, -⟩ := exists_cut hnode
    rw [List.map_append, List.map_cons] at hr
    show NodeQueue.mk ((s.links.removeSelf (some node)).removeSelf (some node)) s.expire = _
    rw [hr.removeSelf_removeSelf]
    rfl

theorem pop_expire : s.pop.expire = s.expire := by
  rw [NodeQueue.pop]
  split <;> rfl

end

/-! ### Histories -/

section
variable {duration : ℤ} {cs cs' : List (QueueCall N)} {s s' : NodeQueue N} {l l' : List N}

/-- What holds after the calls `cs`, when the nodes in the queue are those of `l`. -/
structure QueueInv (duration : ℤ) (cs : List (QueueCall N)) (s : NodeQueue N) (l : List N) :
    Prop where
  ring : Ring s.links none (l.map some)
  pushed : ∀ node ∈ l, ∃ now ∈ pushTimes cs, s.expire node = now + duration
  ordered : (pushTimes cs).Pairwise (· ≤ ·) → (l.map s.expire).Pairwise (· ≤ ·)

omit [DecidableEq N] in
theorem pushTimes_concat (c : QueueCall N) :
    pushTimes (cs ++ [c]) = pushTimes cs ++ pushTimes [c] :=
  List.filterMap_append

omit [DecidableEq N] in
/-- Nodes are taken out, and nothing else happens. -/
theorem QueueInv.sublist (h : QueueInv duration cs s l) (hring : Ring s'.links none (l'.map some))
    (hsub : l'.Sublist l) (htimes : pushTimes cs' = pushTimes cs) (hexpire : s'.expire = s.expire) :
    QueueInv duration cs' s' l' where
  ring := hring
  pushed node hnode := by
    rw [htimes, hexpire]
    exact h.pushed node (hsub.subset hnode)
  ordered hclock := by
    rw [hexpire]
    exact (h.ordered (htimes ▸ hclock)).sublist (hsub.map s.expire)

/-- A node is pushed: it expires last, as the clock does not go back. -/
theorem QueueInv.push {now : ℤ} {node : N} (h : QueueInv duration cs s l) (hnode : node ∉ l) :
    QueueInv duration (cs ++ [.push node now]) (s.push duration now node) (l ++ [node]) := by
  have htimes : pushTimes (cs ++ [.push node now]) = pushTimes cs ++ [now] := pushTimes_concat _
  have hnew : (s.push duration now node).expire node = now + duration := update_self _ _ _
  have hold : ∀ a ∈ l, (s.push duration now node).expire a = s.expire a := by
    intro a ha
    have hne : a ≠ node := fun han => hnode (han ▸ ha)
    exact update_of_ne hne _ _
  refine ⟨ring_push h.ring hnode, fun a ha => ?_, fun hclock => ?_⟩
  · rw [htimes]
    cases List.mem_append.mp ha with
    | inl hal =>
      obtain ⟨t, ht, hexpire⟩ := h.pushed a hal
      exact ⟨t, List.mem_append_left _ ht, (hold a hal).trans hexpire⟩
    | inr han =>
      rw [List.mem_singleton.mp han]
      exact ⟨now, List.mem_append_right _ List.mem_cons_self, hnew⟩
  · rw [htimes, List.pairwise_append] at hclock
    obtain ⟨hbefore, -, hlast⟩ := hclock
    rw [List.map_append, List.map_singleton, hnew, List.map_congr_left hold, List.pairwise_append]
    refine ⟨h.ordered hbefore, List.pairwise_singleton _ _, fun x hx y hy => ?_⟩
    obtain ⟨a, ha, rfl⟩ := List.mem_map.mp hx
    obtain ⟨t, ht, hexpire⟩ := h.pushed a ha
    have hle := hlast t ht now List.mem_cons_self
    rw [List.mem_singleton.mp hy, hexpire]
    omega

/-- The step: one call that the list allows. -/
theorem QueueInv.call {c : QueueCall N} (h : QueueInv duration cs s l)
    (hstep : (fifo N).step l c = some l') :
    QueueInv duration (cs ++ [c]) (s.call duration c) l' := by
  cases c with
  | push node now =>
    have hif : (if node ∈ l then none else some (l ++ [node])) = some l' := hstep
    by_cases hnode : node ∈ l
    · rw [if_pos hnode] at hif
      cases hif
    · rw [if_neg hnode] at hif
      cases hif
      exact h.push hnode
  | pop =>
    cases hstep
    refine h.sublist (ring_pop h.ring) (List.tail_sublist l) ?_ pop_expire
    rw [pushTimes_concat]
    exact List.append_nil _
  | removeSelf node =>
    have hif : (if node ∈ l then some (l.erase node) else none) = some l' := hstep
    by_cases hnode : node ∈ l
    · rw [if_pos hnode] at hif
      cases hif
      refine h.sublist (ring_removeSelf h.ring hnode) List.erase_sublist ?_ rfl
      rw [pushTimes_concat]
      exact List.append_nil _
    · rw [if_neg hnode] at hif
      cases hif

/-- The run: a whole history. -/
theorem queueInv_calls (duration : ℤ) (expire : N → ℤ) (cs : List (QueueCall N)) {l : List N}
    (h : (fifo N).run [] cs = some l) :
    QueueInv duration cs ((NodeQueue.new expire).calls duration cs) l := by
  refine System.run_history
    (P := fun cs l => QueueInv duration cs ((NodeQueue.new expire).calls duration cs) l)
    ?_ ?_ cs h
  · exact ⟨ring_alone none, fun _ hnode => absurd hnode List.not_mem_nil,
      fun _ => List.Pairwise.nil⟩
  · intro cs l c l' hinv hstep
    rw [NodeQueue.calls, List.foldl_append]
    exact hinv.call hstep

end

/-- **The scan of a single thread does its work** on a queue that was used like this while the clock
did not go back: it moves every expired node. -/
theorem scansAll_after_calls {duration : ℤ} {expire : ℕ → ℤ} {cs : List (QueueCall ℕ)} {l : List ℕ}
    (h : (fifo ℕ).run [] cs = some l) (hclock : (pushTimes cs).Pairwise (· ≤ ·)) {s : Queues}
    (hlinks : s.timeQueue = ((NodeQueue.new expire).calls duration cs).links)
    {nodes : ℕ → TimeNode} (hexpire : ∀ a ∈ l,
      (nodes a).expire = ((NodeQueue.new expire).calls duration cs).expire a) (now : ℤ) :
    ScansAll false nodes now s l := by
  have hinv := queueInv_calls duration expire cs h
  have hring : Ring s.timeQueue none (l.map some) := by
    rw [hlinks]
    exact hinv.ring
  have hsorted : l.Pairwise fun a b => (nodes a).expire ≤ (nodes b).expire := by
    refine (List.pairwise_map.mp (hinv.ordered hclock)).imp_of_mem fun ha hb hab => ?_
    rw [hexpire _ ha, hexpire _ hb]
    exact hab
  exact (scansAll_unlocked hring).mpr (expired_at_front now hsorted)

/-- **The queue is its list**: after every history of pushes of nodes that are not in the queue, of
pops, and of removals of nodes that are, the pointers hold the nodes pushed and not removed yet, in
their order; and they expire in that order when the clock does not go back. -/
theorem timeQueue_fifo (duration : ℤ) (expire : N → ℤ) (cs : List (QueueCall N)) (l : List N)
    (h : (fifo N).run [] cs = some l) :
    Holds ((NodeQueue.new expire).calls duration cs) l ∧
      ((pushTimes cs).Pairwise (· ≤ ·) →
        (l.map ((NodeQueue.new expire).calls duration cs).expire).Pairwise (· ≤ ·)) := by
  have hinv := queueInv_calls duration expire cs h
  exact ⟨holds_of_ring hinv.ring, hinv.ordered⟩

/-- Three nodes are pushed, the second takes itself out, and the first is popped. -/
def threePushes : List (QueueCall ℕ) :=
  [.push 0 10, .push 1 10, .push 2 12, .removeSelf 1, .pop]

theorem timeQueue_fifo_threePushes :
    Holds ((NodeQueue.new fun _ => 0).calls 3000 threePushes) [2] ∧
      ((pushTimes threePushes).Pairwise (· ≤ ·) →
        ([2].map ((NodeQueue.new fun _ => 0).calls 3000 threePushes).expire).Pairwise (· ≤ ·)) :=
  timeQueue_fifo 3000 (fun _ => 0) threePushes [2] rfl

end Rojcpp.Tinyasync
