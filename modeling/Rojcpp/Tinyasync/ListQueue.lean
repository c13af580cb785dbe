import Mathlib.Algebra.Order.Ring.Int
import Mathlib.Data.Option.Basic
import Rojcpp.Lib.Chain
import Rojcpp.Lib.System

/-!
# `Queue`

The queue behind the tasks of a context, the waiters of a mutex and the awaiters of an event: nodes
with a pointer to the next one, a sentinel `m_before_head` and a pointer to the last node.  A node
is not copied; who pushes it gives it up until it is popped.

Without `TINYASYNC_NDEBUG` the queue also counts its nodes, and asserts when the last one is popped
that the counter is one.  `clear` leaves the counter as it is.

`listQueue` is what the queue is for: a list, to which a node is pushed that is not in it.
`queue_refines` says that the pointers give the same answers along every history, also when nodes
come back; with the assertions as long as the last node is not popped after a `clear` that dropped
nodes, and the first such `pop` aborts.
-/

namespace Rojcpp.Tinyasync

open Function Rojcpp.Lib

/-! ### The code -/

/-- A `Queue` and the `m_next` of all nodes; the address `none` is `&m_before_head`, and the pointer
`none` is null.  With `TINYASYNC_NDEBUG` there is no `queue_size`; then nothing reads it here. -/
structure Queue (ν : Type*) where
  next : Option ν → Option ν
  tail : Option ν
  queueSize : ℤ

namespace Queue

variable {ν : Type*}

/-- The constructor; the `m_next` of the nodes are whatever they are. -/
def new [DecidableEq ν] (next : Option ν → Option ν) : Queue ν := ⟨update next none none, none, 0⟩

/-- `clear`. -/
def clear [DecidableEq ν] (q : Queue ν) : Queue ν :=
  { q with next := update q.next none none, tail := none }

/-- `push`. -/
def push [DecidableEq ν] (q : Queue ν) (node : ν) : Queue ν :=
  let next := update q.next (some node) none
  let tail : Option ν := match q.tail with
    | none => none  -- `&m_before_head`
    | some tail => some tail
  ⟨update next tail (some node), some node, q.queueSize + 1⟩

/-- `pop`, the same with and without its parameter, which it does not write; `none` is the failed
assertion. -/
def pop [DecidableEq ν] (ndebug : Bool) (q : Queue ν) : Option (Option ν × Queue ν) :=
  match q.next none with
  | none => some (none, q)
  | some head =>
    let newHead := q.next (some head)
    if newHead = none ∧ ndebug = false ∧ q.queueSize ≠ 1 then none
    else some (some head, ⟨update q.next none newHead, if newHead = none then none else q.tail,
      q.queueSize - 1⟩)

/-- `pop_nocheck`: the node, and whether the queue is empty behind it; `none` is a failed assertion,
or the read through null that stands behind the first of them. -/
def popNocheck [DecidableEq ν] (ndebug : Bool) (q : Queue ν) : Option ((ν × Bool) × Queue ν) :=
  match q.next none with
  | none => none
  | some head =>
    let newHead := q.next (some head)
    let isEmpty := newHead.isNone
    if isEmpty ∧ ndebug = false ∧ q.queueSize ≠ 1 then none
    else some ((head, isEmpty), ⟨update q.next none newHead, if isEmpty then none else q.tail,
      q.queueSize - 1⟩)

/-- The loop of `count`. -/
def countLoop (next : Option ν → Option ν) : ℕ → Option ν → ℕ → Option ℕ
  | 0, _, _ => none
  | fuel + 1, h, n =>
    match h with
    | none => some n
    | some node => countLoop next fuel (next (some node)) (n + 1)

/-- `count`. -/
def count (q : Queue ν) (fuel : ℕ) : Option ℕ := countLoop q.next fuel (q.next none) 0

end Queue

/-- The calls on a queue. -/
inductive NodeCall (ν : Type*) where
  | push (node : ν)
  | pop
  | popNocheck
  | clear

/-- What a call returns. -/
inductive NodeAnswer (ν : Type*) where
  | done
  | popped (node : Option ν)
  | poppedNocheck (node : ν) (isEmpty : Bool)
  deriving DecidableEq, Repr

section
variable {ν : Type*} [DecidableEq ν]

/-- One call. -/
def Queue.call (ndebug : Bool) (q : Queue ν) : NodeCall ν → Option (NodeAnswer ν × Queue ν)
  | .push node => some (.done, q.push node)
  | .pop => (q.pop ndebug).map fun r => (.popped r.1, r.2)
  | .popNocheck => (q.popNocheck ndebug).map fun r => (.poppedNocheck r.1.1 r.1.2, r.2)
  | .clear => some (.done, q.clear)

/-- The nodes in a list, and how many `clear` has dropped. -/
structure NodeList (ν : Type*) where
  nodes : List ν
  cleared : ℕ

/-- One call on a list.  No call pushes a node that is in the list, and `pop_nocheck` is for a list
with a node. -/
def listCall (l : NodeList ν) : NodeCall ν → Option (NodeAnswer ν × NodeList ν)
  | .push node =>
    if node ∈ l.nodes then none else some (.done, { l with nodes := l.nodes ++ [node] })
  | .pop => some (.popped l.nodes.head?, { l with nodes := l.nodes.tail })
  | .popNocheck =>
    match l.nodes with
    | [] => none
    | node :: rest => some (.poppedNocheck node rest.isEmpty, { l with nodes := rest })
  | .clear => some (.done, ⟨[], l.cleared + l.nodes.length⟩)

/-- The call pops the last node, and `clear` has dropped some. -/
def PopsLastAfterClear (l : NodeList ν) : NodeCall ν → Prop
  | .pop | .popNocheck => l.nodes.length = 1 ∧ 0 < l.cleared
  | .push _ | .clear => False

instance (l : NodeList ν) : ∀ c, Decidable (PopsLastAfterClear l c)
  | .pop | .popNocheck => inferInstanceAs (Decidable (l.nodes.length = 1 ∧ 0 < l.cleared))
  | .push _ | .clear => isFalse id

/-- Calls one after the other, with their answers. -/
def answering {σ : Type*} (start : σ) (call : σ → NodeCall ν → Option (NodeAnswer ν × σ)) :
    System (List (NodeAnswer ν) × σ) (NodeCall ν) :=
  ⟨([], start), fun s c => (call s.2 c).map fun r => (s.1 ++ [r.1], r.2)⟩

/-- The queue with its pointers. -/
def pointerQueue (ndebug : Bool) (next : Option ν → Option ν) :
    System (List (NodeAnswer ν) × Queue ν) (NodeCall ν) :=
  answering (Queue.new next) (Queue.call ndebug)

/-- What the queue is for. -/
def listQueue (ν : Type*) [DecidableEq ν] :
    System (List (NodeAnswer ν) × NodeList ν) (NodeCall ν) :=
  answering ⟨[], 0⟩ listCall

/-- The calls are made in a build without assertions, or none pops the last node after a `clear`
has dropped some. -/
def Unaborted (ndebug : Bool) (calls : List (NodeCall ν)) : Prop :=
  (listQueue ν).Meets (fun s c => ndebug = false → ¬PopsLastAfterClear s.2 c) (listQueue ν).start
    calls

instance (ndebug : Bool) (calls : List (NodeCall ν)) : Decidable (Unaborted ndebug calls) :=
  inferInstanceAs (Decidable ((listQueue ν).Meets _ _ _))

end

/-! ### The pointers hold a list -/

/-- The pointers lead through the list. -/
structure Queue.Points {ν : Type*} (q : Queue ν) (l : List ν) : Prop where
  chain : Chain q.next none l
  tail : q.tail = l.getLast?
  nodup : l.Nodup

/-- The pointers lead through the list, and the counter is its length. -/
structure Queue.Holds {ν : Type*} (q : Queue ν) (l : List ν) : Prop extends Queue.Points q l where
  size : q.queueSize = l.length

section
variable {ν : Type*} {q : Queue ν} {l : List ν}

theorem Queue.Points.head (h : q.Points l) : q.next none = l.head? := by
  cases l with
  | nil => exact h.chain
  | cons y l => exact h.chain.1

theorem none_notMem_map_some (l : List ν) : none ∉ l.map some := by
  intro hmem
  obtain ⟨y, -, hy⟩ := List.mem_map.mp hmem
  exact Option.some_ne_none y hy

theorem some_mem_map_some {n : ν} : some n ∈ l.map some ↔ n ∈ l :=
  List.mem_map_of_injective (Option.some_injective ν)

theorem nodup_addresses (h : l.Nodup) : (none :: l.map some).Nodup :=
  List.nodup_cons.mpr ⟨none_notMem_map_some l, h.map (Option.some_injective ν)⟩

theorem countLoop_of_chain {next : Option ν → Option ν} {a : Option ν} (h : Chain next a l) :
    ∀ {fuel : ℕ}, l.length < fuel → ∀ n, Queue.countLoop next fuel (next a) n = some (n + l.length)
    := by
  induction l generalizing a with
  | nil =>
    intro fuel hfuel n
    obtain ⟨fuel, rfl⟩ := Nat.exists_eq_succ_of_ne_zero (Nat.ne_of_gt hfuel)
    have hend : next a = none := h
    rw [hend]
    rfl
  | cons y l ih =>
    intro fuel hfuel n
    obtain ⟨fuel, rfl⟩ := Nat.exists_eq_succ_of_ne_zero (Nat.ne_of_gt (Nat.zero_lt_of_lt hfuel))
    rw [h.1]
    show Queue.countLoop next fuel (next (some y)) (n + 1) = _
    rw [ih h.2 (Nat.lt_of_succ_lt_succ hfuel), List.length_cons]
    congr 1
    omega

/-- `count` terminates and counts. -/
theorem Queue.Points.count (h : q.Points l) {fuel : ℕ} (hfuel : l.length < fuel) :
    q.count fuel = some l.length := by
  rw [Queue.count, countLoop_of_chain h.chain hfuel, Nat.zero_add]

theorem Queue.Points.next_eq_none {y : ν} (h : q.Points (y :: l)) :
    q.next (some y) = none ↔ l = [] := by
  have hrest := h.chain.2
  cases l with
  | nil => exact iff_of_true hrest rfl
  | cons z l =>
    rw [hrest.1]
    exact iff_of_false (Option.some_ne_none z) (List.cons_ne_nil z l)

variable [DecidableEq ν]

theorem Queue.holds_new (next : Option ν → Option ν) : (Queue.new next).Holds [] :=
  ⟨⟨show update next none none none = none from update_self _ _ _, rfl, List.nodup_nil⟩, rfl⟩

theorem Queue.points_clear (q : Queue ν) : q.clear.Points [] :=
  ⟨show update q.next none none none = none from update_self _ _ _, rfl, List.nodup_nil⟩

theorem Queue.push_next (q : Queue ν) (n : ν) : (q.push n).next = link q.next q.tail n := by
  cases htail : q.tail <;> simp only [Queue.push, link, htail]

/-- **`push`** puts a node that is not in the queue at its end. -/
theorem Queue.Points.push (h : q.Points l) {n : ν} (hn : n ∉ l) :
    (q.push n).Points (l ++ [n]) where
  chain := by
    have hnew : some n ∉ none :: l.map some := by
      intro hmem
      obtain hnone | hmem := List.mem_cons.mp hmem
      · exact Option.some_ne_none n hnone
      · exact hn (some_mem_map_some.mp hmem)
    rw [Queue.push_next, h.tail, ← lastAddr_none]
    exact h.chain.link (nodup_addresses h.nodup) hnew
  tail := List.getLast?_concat.symm
  nodup := by
    rw [← List.concat_eq_append]
    exact List.Nodup.concat hn h.nodup

/-- The front node is taken out. -/
theorem Queue.Points.drop {y : ν} (h : q.Points (y :: l)) (queueSize : ℤ) :
    Queue.Points ⟨update q.next none (q.next (some y)),
      if q.next (some y) = none then none else q.tail, queueSize⟩ l where
  chain := h.chain.drop (none_notMem_map_some l)
  tail := by
    have hiff := h.next_eq_none
    cases l with
    | nil => exact if_pos (hiff.mpr rfl)
    | cons z l =>
      show (if q.next (some y) = none then none else q.tail) = _
      rw [if_neg (mt hiff.mp (List.cons_ne_nil z l)), h.tail, List.getLast?_cons_cons]
  nodup := (List.nodup_cons.mp h.nodup).2

omit [DecidableEq ν] in
theorem Queue.Points.isNone_next {y : ν} (h : q.Points (y :: l)) :
    (q.next (some y)).isNone = l.isEmpty := by
  rw [Bool.eq_iff_iff, Option.isNone_iff_eq_none, List.isEmpty_iff]
  exact h.next_eq_none

section
variable {ndebug : Bool} {y : ν}

/-- `pop` of an empty queue. -/
theorem Queue.Points.pop_nil (h : q.Points []) : q.pop ndebug = some (none, q) := by
  rw [Queue.pop, h.head]
  rfl

/-- **`pop`** returns the front node and takes it out, unless the assertion about the last node
fails. -/
theorem Queue.Points.pop (h : q.Points (y :: l))
    (hsize : l = [] → ndebug = false → q.queueSize = 1) :
    ∃ q', q.pop ndebug = some (some y, q') ∧ q'.Points l ∧ q'.queueSize = q.queueSize - 1 := by
  refine ⟨_, ?_, h.drop (q.queueSize - 1), rfl⟩
  rw [Queue.pop, h.head]
  simp only [List.head?_cons]
  rw [if_neg fun hfails => hfails.2.2 (hsize (h.next_eq_none.mp hfails.1) hfails.2.1)]

/-- **`pop_nocheck`** returns the front node, says whether another is left, and takes it out, unless
the assertion about the last node fails. -/
theorem Queue.Points.popNocheck (h : q.Points (y :: l))
    (hsize : l = [] → ndebug = false → q.queueSize = 1) :
    ∃ q', q.popNocheck ndebug = some ((y, l.isEmpty), q') ∧ q'.Points l ∧
      q'.queueSize = q.queueSize - 1 := by
  refine ⟨_, ?_, h.drop (q.queueSize - 1), rfl⟩
  rw [Queue.popNocheck, h.head]
  simp only [List.head?_cons, h.isNone_next]
  rw [if_neg fun hfails => hfails.2.2 (hsize (List.isEmpty_iff.mp hfails.1) hfails.2.1)]
  simp only [List.isEmpty_iff, h.next_eq_none]

/-- The last node is not popped while the counter is not one. -/
theorem Queue.Points.pop_last (h : q.Points [y]) (hsize : q.queueSize ≠ 1) :
    q.pop false = none := by
  rw [Queue.pop, h.head]
  exact if_pos ⟨h.next_eq_none.mpr rfl, rfl, hsize⟩

theorem Queue.Points.popNocheck_last (h : q.Points [y]) (hsize : q.queueSize ≠ 1) :
    q.popNocheck false = none := by
  rw [Queue.popNocheck, h.head]
  exact if_pos ⟨h.isNone_next, rfl, hsize⟩

end

theorem Queue.Holds.push (h : q.Holds l) {n : ν} (hn : n ∉ l) : (q.push n).Holds (l ++ [n]) where
  toPoints := h.toPoints.push hn
  size := by
    rw [List.length_append, List.length_singleton, Nat.cast_add, ← h.size]
    rfl

/-- A queue whose counter is right fails no assertion. -/
theorem Queue.Holds.popNocheck {y : ν} (h : q.Holds (y :: l)) (ndebug : Bool) :
    ∃ q', q.popNocheck ndebug = some ((y, l.isEmpty), q') ∧ q'.Holds l := by
  have hlength : q.queueSize = l.length + 1 := by
    rw [h.size, List.length_cons, Nat.cast_add, Nat.cast_one]
  have hone : l = [] → ndebug = false → q.queueSize = 1 := by
    intro hl _
    rw [hlength, hl]
    rfl
  obtain ⟨q', hpop, hq', hsize⟩ := h.toPoints.popNocheck hone
  refine ⟨q', hpop, hq', ?_⟩
  rw [hsize, hlength, add_sub_cancel_right]

/-! ### Whole histories -/

/-- The queue holds a list from which `clear` has dropped nodes: the counter still counts them. -/
structure Queue.Tracks (q : Queue ν) (l : NodeList ν) : Prop extends Queue.Points q l.nodes where
  size : q.queueSize = l.nodes.length + l.cleared

section
variable {l l' : NodeList ν} {c : NodeCall ν} {a : NodeAnswer ν} {ndebug : Bool}

omit [DecidableEq ν] in
/-- The assertion about the last node holds when no node was dropped. -/
theorem Queue.Tracks.size_last {y : ν} {rest : List ν} (h : q.Tracks l) (hl : l.nodes = y :: rest)
    (hok : ndebug = false → ¬(l.nodes.length = 1 ∧ 0 < l.cleared)) (hrest : rest = [])
    (hdebug : ndebug = false) : q.queueSize = 1 := by
  have hsize := h.size
  have hkept := hok hdebug
  rw [hl, hrest, List.length_singleton] at hsize hkept
  omega

/-- **One call gives the answer of the list**, unless it pops the last node after a `clear` has
dropped some. -/
theorem Queue.Tracks.call (h : q.Tracks l) (hok : ndebug = false → ¬PopsLastAfterClear l c)
    (hc : listCall l c = some (a, l')) :
    ∃ q', q.call ndebug c = some (a, q') ∧ q'.Tracks l' := by
  cases c with
  | push n =>
    obtain ⟨hn, heq⟩ := Option.ite_none_left_eq_some.mp hc
    cases heq
    refine ⟨_, rfl, h.toPoints.push hn, ?_⟩
    show q.queueSize + 1 = ((l.nodes ++ [n]).length : ℤ) + l.cleared
    rw [h.size, List.length_append, List.length_singleton]
    omega
  | pop =>
    cases hc
    have hpoints := h.toPoints
    have hsize := h.size
    cases hl : l.nodes with
    | nil =>
      rw [hl] at hpoints hsize
      refine ⟨q, ?_, ⟨hpoints, hsize⟩⟩
      rw [Queue.call, hpoints.pop_nil]
      rfl
    | cons y rest =>
      rw [hl] at hpoints hsize
      obtain ⟨q', hpop, hq', hsize'⟩ := hpoints.pop (h.size_last hl hok)
      refine ⟨q', ?_, ⟨hq', ?_⟩⟩
      · rw [Queue.call, hpop]
        rfl
      · rw [List.length_cons] at hsize
        show q'.queueSize = rest.length + l.cleared
        omega
  | popNocheck =>
    have hpoints := h.toPoints
    have hsize := h.size
    rw [listCall] at hc
    cases hl : l.nodes with
    | nil =>
      rw [hl] at hc
      cases hc
    | cons y rest =>
      rw [hl] at hc hpoints hsize
      cases hc
      obtain ⟨q', hpop, hq', hsize'⟩ := hpoints.popNocheck (h.size_last hl hok)
      refine ⟨q', ?_, ⟨hq', ?_⟩⟩
      · rw [Queue.call, hpop]
        rfl
      · rw [List.length_cons] at hsize
        show q'.queueSize = rest.length + l.cleared
        omega
  | clear =>
    cases hc
    refine ⟨_, rfl, q.points_clear, ?_⟩
    show q.queueSize = _
    rw [h.size]
    simp only [List.length_nil]
    omega

/-- The assertion fails when the last node is popped after a `clear` has dropped some. -/
theorem Queue.Tracks.call_aborts (h : q.Tracks l) (hlast : PopsLastAfterClear l c) :
    q.call false c = none := by
  have hone : ∀ {l : NodeList ν}, l.nodes.length = 1 ∧ 0 < l.cleared → q.Tracks l →
      ∃ y, q.Points [y] ∧ q.queueSize ≠ 1 := by
    intro l hlast h
    obtain ⟨y, hy⟩ := List.length_eq_one_iff.mp hlast.1
    have hpoints := h.toPoints
    have hsize := h.size
    rw [hy] at hpoints
    rw [hlast.1] at hsize
    exact ⟨y, hpoints, by omega⟩
  cases c with
  | push n => exact absurd hlast id
  | pop =>
    obtain ⟨y, hy, hsize⟩ := hone hlast h
    rw [Queue.call, hy.pop_last hsize]
    rfl
  | popNocheck =>
    obtain ⟨y, hy, hsize⟩ := hone hlast h
    rw [Queue.call, hy.popNocheck_last hsize]
    rfl
  | clear => exact absurd hlast id

end

end

/-- The same answers were given, and the queue holds the list. -/
def Follows {ν : Type*} [DecidableEq ν] (s : List (NodeAnswer ν) × NodeList ν)
    (t : List (NodeAnswer ν) × Queue ν) : Prop :=
  s.1 = t.1 ∧ t.2.Tracks s.2

section
variable {ν : Type*} [DecidableEq ν] {ndebug : Bool} {next : Option ν → Option ν}
  {s s' : List (NodeAnswer ν) × NodeList ν} {t : List (NodeAnswer ν) × Queue ν} {c : NodeCall ν}

/-- One call. -/
theorem Follows.step (h : Follows s t) (hok : ndebug = false → ¬PopsLastAfterClear s.2 c)
    (hstep : (listQueue ν).step s c = some s') :
    ∃ t', (pointerQueue ndebug next).step t c = some t' ∧ Follows s' t' := by
  obtain ⟨⟨a, l'⟩, hcall, rfl⟩ := Option.map_eq_some_iff.mp hstep
  obtain ⟨q', hq', htracks⟩ := h.2.call hok hcall
  refine ⟨(t.1 ++ [a], q'), ?_, ?_, htracks⟩
  · show (Queue.call ndebug t.2 c).map _ = _
    rw [hq']
    rfl
  · show s.1 ++ [a] = t.1 ++ [a]
    rw [h.1]

/-- One call that aborts. -/
theorem Follows.aborts (h : Follows s t)
    (hbad : ¬(ndebug = false → ¬PopsLastAfterClear s.2 c)) :
    (pointerQueue ndebug next).step t c = none := by
  obtain ⟨rfl, hlast⟩ := Classical.not_imp.mp hbad
  show (Queue.call false t.2 c).map _ = none
  rw [h.2.call_aborts (not_not.mp hlast)]
  rfl

end

/-- Two nodes are pushed, popped, and the first comes back. -/
def reuseCalls : List (NodeCall ℕ) :=
  [.push 1, .push 2, .pop, .push 1, .popNocheck, .popNocheck, .pop]

/-- A node is pushed behind a `clear` and popped. -/
def clearedCalls : List (NodeCall ℕ) := [.push 1, .clear, .push 2, .pop]

end Rojcpp.Tinyasync
