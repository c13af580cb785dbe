import Mathlib.Data.List.Count
import Mathlib.Data.Int.Notation
import Mathlib.Logic.Function.Basic
import Mathlib.Tactic.Ring
import Rojcpp.Lib.System

/-!
# The connection pool

`cppdb::pool`.  The calls of any number of clients are interleaved: a state holds the calls that
are under way, and each step is one access to shared data.  `open` looks at the clock before it
takes the lock, and a `connection_raii` that is destroyed stores the time in its connection before
`put` takes the lock, so entries may come back out of time order.

Connections are numbered in the order they are made.  `closed` collects those whose last
`shared_ptr` is gone.  The pool outlives its `connection_raii`s.
-/

namespace Rojcpp.Sql

open Rojcpp.Lib

/-! ### The list and its counter -/

/-- `pool_` and `size_`, and the connections that are destroyed.  The counter is an integer, so
that a decrement below zero would show. -/
structure Entries where
  pool : List ℕ
  size : ℤ
  closed : List ℕ
  deriving DecidableEq, Repr

/-- The first loop of `get` and `put`: expired entries are erased from the front, up to the first
one that is not expired. -/
def Entries.purge (expired : ℕ → Bool) (size : ℤ) (closed : List ℕ) : List ℕ → Entries
  | [] => ⟨[], size, closed⟩
  | c :: p =>
    if expired c = true then purge expired (size - 1) (closed ++ [c]) p
    else ⟨c :: p, size, closed⟩

/-- The last loop of `put`; `none` is a `pop_front` of an empty list. -/
def Entries.evict (limit : ℕ) (size : ℤ) (closed : List ℕ) : List ℕ → Option Entries
  | [] => if (limit : ℤ) < size then none else some ⟨[], size, closed⟩
  | c :: p =>
    if (limit : ℤ) < size then evict limit (size - 1) (closed ++ [c]) p
    else some ⟨c :: p, size, closed⟩

/-- The locked part of `get`: the connection it takes, if it finds one, and what it leaves. -/
def Entries.get (expired : ℕ → Bool) (e : Entries) : Option ℕ × Entries :=
  let e := purge expired e.size e.closed e.pool
  match e.pool with
  | [] => (none, e)
  | c :: p => (some c, ⟨p, e.size - 1, e.closed⟩)

/-- The locked part of `put`. -/
def Entries.put (expired : ℕ → Bool) (limit : ℕ) (c_in : Option ℕ) (e : Entries) :
    Option Entries :=
  let e := purge expired e.size e.closed e.pool
  match c_in with
  | none => evict limit e.size e.closed e.pool
  | some c => evict limit (e.size + 1) e.closed (e.pool ++ [c])

/-- `clear`. -/
def Entries.clear (e : Entries) : Entries := ⟨[], 0, e.closed ++ e.pool⟩

/-! ### The pool and its clients -/

/-- `limit_` and `life_time_`, and the time at which the pool is made. -/
structure PoolConf where
  limit : ℕ
  lifeTime : ℕ
  epoch : ℕ

/-- The pool, its connections, and the calls that are under way: `opening` has the clock reading of
each `open` that waits for the lock, `connecting` counts those that found nothing and make a new
connection, and `releasing` has the connection of each destructor that waits for the lock. -/
structure Pool where
  clock : ℕ
  lastUsed : ℕ → ℕ
  created : ℕ
  entries : Entries
  raiis : List ℕ
  opening : List ℕ
  connecting : ℕ
  releasing : List ℕ

/-- One step: time passes, or a client makes the next step of a call. -/
inductive PoolAction where
  | tick (seconds : ℕ)
  | «open»
  | get (now : ℕ)
  | connected
  | connectFailed
  | release (c : ℕ)
  | put (c : ℕ)
  | gc
  | clear
  deriving DecidableEq, Repr

/-- `get_last_used() + life_time_ < now`. -/
def Pool.expired (conf : PoolConf) (s : Pool) (now c : ℕ) : Bool :=
  s.lastUsed c + conf.lifeTime < now

/-- A new pool. -/
def Pool.init (conf : PoolConf) : Pool where
  clock := conf.epoch
  lastUsed := fun _ => conf.epoch
  created := 0
  entries := ⟨[], 0, []⟩
  raiis := []
  opening := []
  connecting := 0
  releasing := []

/-- The steps of the pool's operations. -/
def Pool.step (conf : PoolConf) (s : Pool) : PoolAction → Option Pool
  | .tick seconds => some { s with clock := s.clock + seconds }
  | .open =>
    if conf.limit = 0 then some { s with connecting := s.connecting + 1 }
    else some { s with opening := s.clock :: s.opening }
  | .get now =>
    if now ∈ s.opening then
      match s.entries.get (s.expired conf now) with
      | (none, entries) => some { s with
          entries, opening := s.opening.erase now, connecting := s.connecting + 1 }
      | (some c, entries) => some { s with
          entries, opening := s.opening.erase now, raiis := c :: s.raiis }
    else none
  | .connected =>
    if 0 < s.connecting then some { s with
      connecting := s.connecting - 1
      created := s.created + 1
      lastUsed := Function.update s.lastUsed s.created s.clock
      raiis := s.created :: s.raiis }
    else none
  | .connectFailed =>
    if 0 < s.connecting then some { s with connecting := s.connecting - 1 } else none
  | .release c =>
    if c ∈ s.raiis then some { s with
      raiis := s.raiis.erase c
      lastUsed := Function.update s.lastUsed c s.clock
      releasing := c :: s.releasing }
    else none
  | .put c =>
    if c ∈ s.releasing then
      if conf.limit = 0 then some { s with
        releasing := s.releasing.erase c
        entries := { s.entries with closed := s.entries.closed ++ [c] } }
      else (s.entries.put (s.expired conf s.clock) conf.limit (some c)).map fun entries =>
        { s with entries, releasing := s.releasing.erase c }
    else none
  | .gc =>
    if conf.limit = 0 then some s
    else (s.entries.put (s.expired conf s.clock) conf.limit none).map fun entries =>
      { s with entries }
  | .clear => some { s with entries := s.entries.clear }

/-- The pool as a system. -/
def poolSystem (conf : PoolConf) : System Pool PoolAction := ⟨Pool.init conf, Pool.step conf⟩

/-- A connection that is made and not destroyed. -/
def Pool.Live (s : Pool) (c : ℕ) : Prop := c < s.created ∧ c ∉ s.entries.closed

/-- How many `connection_raii`s own a connection; one whose destructor still waits for the lock
counts. -/
def Pool.raiiOwners (s : Pool) (c : ℕ) : ℕ := s.raiis.count c + s.releasing.count c

/-- What holds of the pool: the counter is the length of the list and within the limit, a live
connection has exactly one owner and a destroyed one has none, and no entry is popped that is not
there. -/
structure Pool.Safe (conf : PoolConf) (s : Pool) : Prop where
  size_eq : s.entries.size = s.entries.pool.length
  size_le : s.entries.size ≤ conf.limit
  live : ∀ c, s.Live c → s.raiiOwners c + s.entries.pool.count c = 1
  dead : ∀ c, ¬ s.Live c → s.raiiOwners c + s.entries.pool.count c = 0
  popped : ∀ c_in, s.entries.put (s.expired conf s.clock) conf.limit c_in ≠ none

/-- What a `get` hands out has not been idle for longer than the life time. -/
def HandsOutFresh (conf : PoolConf) (s : Pool) : PoolAction → Prop
  | .get now =>
    ∀ c ∈ (s.entries.get (s.expired conf now)).1, s.clock ≤ s.lastUsed c + conf.lifeTime
  | _ => True

/-- While a `get` waits for the lock, none of the entries in front of the list expires: those that
are expired by its clock reading are those that are expired when it has the lock. -/
def InTime (conf : PoolConf) (s : Pool) : PoolAction → Prop
  | .get now =>
    s.entries.pool.takeWhile (s.expired conf now) =
      s.entries.pool.takeWhile (s.expired conf s.clock)
  | _ => True

instance (conf : PoolConf) (s : Pool) : ∀ a, Decidable (HandsOutFresh conf s a)
  | .get now => inferInstanceAs (Decidable (∀ c ∈ (s.entries.get (s.expired conf now)).1,
      s.clock ≤ s.lastUsed c + conf.lifeTime))
  | .tick _ | .open | .connected | .connectFailed | .release _ | .put _ | .gc | .clear =>
    isTrue trivial

instance (conf : PoolConf) (s : Pool) : ∀ a, Decidable (InTime conf s a)
  | .get now => inferInstanceAs (Decidable (s.entries.pool.takeWhile (s.expired conf now) =
      s.entries.pool.takeWhile (s.expired conf s.clock)))
  | .tick _ | .open | .connected | .connectFailed | .release _ | .put _ | .gc | .clear =>
    isTrue trivial

/-! ### What the loops do -/

/-- The entries in use and the destroyed ones, counted together. -/
def Entries.total (e : Entries) (c : ℕ) : ℕ := e.pool.count c + e.closed.count c

/-- **The expiry loop** moves a front part of the list to the destroyed ones, and what it leaves in
front is not expired. -/
theorem Entries.purge_spec (expired : ℕ → Bool) (p : List ℕ) : ∀ (size : ℤ) (closed : List ℕ),
    let e := purge expired size closed p
    e.size - e.pool.length = size - p.length ∧ e.pool.length ≤ p.length ∧
      (∀ c, e.total c = p.count c + closed.count c) ∧ ∀ c ∈ e.pool.head?, expired c = false := by
  induction p with
  | nil => exact fun size closed => ⟨rfl, le_rfl, fun c => rfl, fun c hc => nomatch hc⟩
  | cons d p ih =>
    intro size closed
    rw [purge]
    by_cases hd : expired d = true
    · rw [if_pos hd]
      obtain ⟨hsize, hlength, htotal, hhead⟩ := ih (size - 1) (closed ++ [d])
      refine ⟨?_, ?_, fun c => ?_, hhead⟩
      · rw [hsize, List.length_cons]
        push_cast
        ring
      · exact hlength.trans (Nat.le_succ _)
      · rw [htotal]
        simp only [List.count_append, List.count_cons, List.count_nil]
        omega
    · rw [if_neg hd]
      refine ⟨rfl, le_rfl, fun c => rfl, fun c hc => ?_⟩
      cases hc
      exact Bool.eq_false_iff.mpr hd

/-- **The eviction loop**, when the counter is the length of the list. -/
theorem Entries.evict_spec (limit : ℕ) (p : List ℕ) : ∀ closed : List ℕ,
    ∃ e, evict limit p.length closed p = some e ∧ e.size = e.pool.length ∧
      e.size ≤ limit ∧ ∀ c, e.total c = p.count c + closed.count c := by
  induction p with
  | nil =>
    intro closed
    refine ⟨⟨[], 0, closed⟩, ?_, rfl, by simp, fun c => rfl⟩
    rw [evict, if_neg (by simp)]
    rfl
  | cons d p ih =>
    intro closed
    rw [evict]
    by_cases hlimit : (limit : ℤ) < (d :: p).length
    · obtain ⟨e, he, hsize, hle, htotal⟩ := ih (closed ++ [d])
      have hcast : ((d :: p).length : ℤ) - 1 = p.length := by
        rw [List.length_cons]
        push_cast
        ring
      rw [if_pos hlimit, hcast]
      refine ⟨e, he, hsize, hle, fun c => ?_⟩
      rw [htotal]
      simp only [List.count_append, List.count_cons, List.count_nil]
      omega
    · rw [if_neg hlimit]
      exact ⟨_, rfl, rfl, Int.not_lt.mp hlimit, fun c => rfl⟩

section
variable (expired : ℕ → Bool) {e : Entries}

/-- What `get` does to entries whose counter is right. -/
theorem Entries.get_spec (h : e.size = e.pool.length) {c? : Option ℕ} {e' : Entries}
    (hget : e.get expired = (c?, e')) :
    e'.size = e'.pool.length ∧ e'.size ≤ e.size ∧
      (∀ c, e'.total c + c?.toList.count c = e.total c) ∧ ∀ c ∈ c?, expired c = false := by
  obtain ⟨hsize, hlength, htotal, hhead⟩ := purge_spec expired e.pool e.size e.closed
  simp only [get] at hget hsize hlength htotal hhead
  generalize purge expired e.size e.closed e.pool = r at hget hsize hlength htotal hhead
  cases hpool : r.pool with
  | nil =>
    rw [hpool] at hget
    cases hget
    refine ⟨by omega, by omega, fun c => ?_, fun c hc => nomatch hc⟩
    rw [htotal]
    rfl
  | cons d p =>
    rw [hpool] at hget hhead hlength hsize
    cases hget
    rw [List.length_cons] at hlength hsize
    push_cast at hsize
    refine ⟨?_, ?_, fun c => ?_, fun c hc => ?_⟩
    · show r.size - 1 = p.length
      omega
    · show r.size - 1 ≤ e.size
      omega
    · have hcount := htotal c
      rw [total, hpool, List.count_cons] at hcount
      simp only [total, Option.toList_some, List.count_cons, List.count_nil]
      omega
    · cases hc
      exact hhead d rfl

/-- What `put` does to entries whose counter is right. -/
theorem Entries.put_spec (h : e.size = e.pool.length) (limit : ℕ) (c_in : Option ℕ) :
    ∃ e', e.put expired limit c_in = some e' ∧ e'.size = e'.pool.length ∧ e'.size ≤ limit ∧
      ∀ c, e'.total c = e.total c + c_in.toList.count c := by
  obtain ⟨hsize, -, htotal, -⟩ := purge_spec expired e.pool e.size e.closed
  simp only [put] at hsize htotal ⊢
  generalize purge expired e.size e.closed e.pool = r at hsize htotal
  have hr : r.size = r.pool.length := by omega
  cases c_in with
  | none =>
    obtain ⟨e', he', hsize', hle, htotal'⟩ := evict_spec limit r.pool r.closed
    refine ⟨e', by rw [← he', hr], hsize', hle, fun c => ?_⟩
    rw [htotal', Option.toList_none, List.count_nil]
    exact htotal c
  | some d =>
    obtain ⟨e', he', hsize', hle, htotal'⟩ := evict_spec limit (r.pool ++ [d]) r.closed
    have hlength : r.size + 1 = (r.pool ++ [d]).length := by
      rw [hr, List.length_append, List.length_singleton]
      rfl
    refine ⟨e', by rw [← he', hlength], hsize', hle, fun c => ?_⟩
    have hcount := htotal c
    rw [total] at hcount
    rw [htotal', List.count_append, Option.toList_some]
    rw [total]
    omega

end

/-! ### The invariant -/

/-- The counter is right, every connection has one place, and no `open` has read a later time. -/
structure Pool.Inv (conf : PoolConf) (s : Pool) : Prop where
  size_eq : s.entries.size = s.entries.pool.length
  size_le : s.entries.size ≤ conf.limit
  placed : ∀ c, s.raiiOwners c + s.entries.total c = if c < s.created then 1 else 0
  read : ∀ now ∈ s.opening, now ≤ s.clock

theorem Pool.inv_init (conf : PoolConf) : Pool.Inv conf (Pool.init conf) where
  size_eq := rfl
  size_le := Int.natCast_nonneg _
  placed := fun _ => rfl
  read := fun _ h => nomatch h

section
variable {conf : PoolConf} {s : Pool}

/-- A connection that is made goes to its first owner. -/
theorem Pool.Inv.connected (hs : s.Inv conf) : Pool.Inv conf { s with
    connecting := s.connecting - 1
    created := s.created + 1
    lastUsed := Function.update s.lastUsed s.created s.clock
    raiis := s.created :: s.raiis } := by
  refine ⟨hs.size_eq, hs.size_le, fun c => ?_, hs.read⟩
  have hc := hs.placed c
  simp only [raiiOwners, List.count_cons, beq_iff_eq] at hc ⊢
  by_cases hnew : s.created = c
  · rw [if_neg (by omega)] at hc
    rw [if_pos hnew, if_pos (by omega)]
    omega
  · rw [if_neg hnew]
    by_cases hold : c < s.created
    · rw [if_pos hold] at hc
      rw [if_pos (by omega)]
      omega
    · rw [if_neg hold] at hc
      rw [if_neg (by omega)]
      omega

/-- An owner that is destroyed passes its connection on. -/
theorem Pool.Inv.release (hs : s.Inv conf) {c : ℕ} (hc : c ∈ s.raiis) : Pool.Inv conf { s with
    raiis := s.raiis.erase c
    lastUsed := Function.update s.lastUsed c s.clock
    releasing := c :: s.releasing } := by
  refine ⟨hs.size_eq, hs.size_le, fun d => ?_, hs.read⟩
  have hmove := (List.perm_cons_erase hc).count_eq d
  rw [List.count_cons] at hmove
  rw [← hs.placed d]
  simp only [raiiOwners, List.count_cons]
  omega

/-- `get` hands a connection of the list out, or none. -/
theorem Pool.Inv.get (hs : s.Inv conf) {now : ℕ} {c? : Option ℕ} {entries : Entries}
    (hget : s.entries.get (s.expired conf now) = (c?, entries)) (connecting : ℕ) :
    Pool.Inv conf { s with
      entries
      opening := s.opening.erase now
      connecting
      raiis := c?.toList ++ s.raiis } := by
  obtain ⟨hsize, hle, htotal, -⟩ := Entries.get_spec _ hs.size_eq hget
  refine ⟨hsize, hle.trans hs.size_le, fun c => ?_,
    fun t ht => hs.read t (List.mem_of_mem_erase ht)⟩
  rw [← hs.placed c, ← htotal c]
  simp only [raiiOwners, List.count_append]
  omega

/-- `put` without a connection. -/
theorem Pool.Inv.gc (hs : s.Inv conf) {entries : Entries}
    (hput : s.entries.put (s.expired conf s.clock) conf.limit none = some entries) :
    Pool.Inv conf { s with entries } := by
  obtain ⟨entries', hput', hsize, hle, htotal⟩ :=
    Entries.put_spec (s.expired conf s.clock) hs.size_eq conf.limit none
  rw [hput] at hput'
  cases hput'
  refine ⟨hsize, hle, fun d => ?_, hs.read⟩
  rw [← hs.placed d, htotal]
  rfl

/-- `put` takes a connection over from the owner that is destroyed. -/
theorem Pool.Inv.put (hs : s.Inv conf) {c : ℕ} (hc : c ∈ s.releasing) {entries : Entries}
    (hput : s.entries.put (s.expired conf s.clock) conf.limit (some c) = some entries) :
    Pool.Inv conf { s with entries, releasing := s.releasing.erase c } := by
  obtain ⟨entries', hput', hsize, hle, htotal⟩ :=
    Entries.put_spec (s.expired conf s.clock) hs.size_eq conf.limit (some c)
  rw [hput] at hput'
  cases hput'
  refine ⟨hsize, hle, fun d => ?_, hs.read⟩
  have hmove := (List.perm_cons_erase hc).count_eq d
  rw [List.count_cons] at hmove
  rw [← hs.placed d, htotal]
  simp only [raiiOwners, Option.toList_some, List.count_cons, List.count_nil]
  omega

theorem Pool.Inv.clear (hs : s.Inv conf) :
    Pool.Inv conf { s with entries := s.entries.clear } := by
  refine ⟨rfl, Int.natCast_nonneg _, fun c => ?_, hs.read⟩
  rw [← hs.placed c]
  simp only [raiiOwners, Entries.total, Entries.clear, List.count_nil, List.count_append]
  omega

end

/-- The step lemma. -/
theorem Pool.inv_step {conf : PoolConf} (hlimit : 0 < conf.limit) {s s' : Pool} {a : PoolAction}
    (hs : s.Inv conf) (h : s.step conf a = some s') : s'.Inv conf := by
  have hlimit' : ¬ conf.limit = 0 := Nat.ne_of_gt hlimit
  cases a with
  | tick seconds =>
    cases h
    exact ⟨hs.size_eq, hs.size_le, hs.placed,
      fun now hnow => (hs.read now hnow).trans (Nat.le_add_right _ _)⟩
  | «open» =>
    rw [step, if_neg hlimit'] at h
    cases h
    refine ⟨hs.size_eq, hs.size_le, hs.placed, fun now hnow => ?_⟩
    rcases List.mem_cons.mp hnow with rfl | hnow
    · exact le_rfl
    · exact hs.read now hnow
  | get now =>
    rw [step, Option.ite_none_right_eq_some] at h
    obtain ⟨-, h⟩ := h
    rcases hget : s.entries.get (s.expired conf now) with ⟨c?, entries⟩
    rw [hget] at h
    cases c? with
    | none =>
      cases h
      exact hs.get hget (s.connecting + 1)
    | some d =>
      cases h
      exact hs.get hget s.connecting
  | connected =>
    rw [step, Option.ite_none_right_eq_some] at h
    obtain ⟨-, h⟩ := h
    cases h
    exact hs.connected
  | connectFailed =>
    rw [step, Option.ite_none_right_eq_some] at h
    obtain ⟨-, h⟩ := h
    cases h
    exact ⟨hs.size_eq, hs.size_le, hs.placed, hs.read⟩
  | release c =>
    rw [step, Option.ite_none_right_eq_some] at h
    obtain ⟨hc, h⟩ := h
    cases h
    exact hs.release hc
  | put c =>
    rw [step, Option.ite_none_right_eq_some] at h
    obtain ⟨hc, h⟩ := h
    rw [if_neg hlimit'] at h
    obtain ⟨entries, hput, rfl⟩ := Option.map_eq_some_iff.mp h
    exact hs.put hc hput
  | gc =>
    rw [step, if_neg hlimit'] at h
    obtain ⟨entries, hput, rfl⟩ := Option.map_eq_some_iff.mp h
    exact hs.gc hput
  | clear =>
    cases h
    exact hs.clear

/-- The run lemma. -/
theorem Pool.inv_reachable {conf : PoolConf} (hlimit : 0 < conf.limit) {s : Pool}
    (hs : (poolSystem conf).Reachable System.anyStep s) : s.Inv conf :=
  hs.invariant (Pool.Inv conf) (Pool.inv_init conf) fun _ _ _ h _ hstep =>
    Pool.inv_step hlimit h hstep

/-- A connection that is made has one place: an owner, or the destroyed ones. -/
theorem Pool.Inv.owners {conf : PoolConf} {s : Pool} (hs : s.Inv conf) (c : ℕ) :
    (s.Live c → s.raiiOwners c + s.entries.pool.count c = 1) ∧
      (¬ s.Live c → s.raiiOwners c + s.entries.pool.count c = 0) := by
  have hc := hs.placed c
  rw [Entries.total] at hc
  constructor
  · intro ⟨hmade, hopen⟩
    rw [if_pos hmade, List.count_eq_zero_of_not_mem hopen] at hc
    exact hc
  · intro hdead
    by_cases hmade : c < s.created
    · have hclosed : c ∈ s.entries.closed := by
        by_contra hopen
        exact hdead ⟨hmade, hopen⟩
      have hpos := List.count_pos_iff.mpr hclosed
      rw [if_pos hmade] at hc
      omega
    · rw [if_neg hmade] at hc
      omega

/-- **The pool counts right, never exceeds its limit and gives every live connection exactly one
owner**, in every interleaving of the calls of any number of clients. -/
theorem Pool.Inv.safe {conf : PoolConf} {s : Pool} (hs : s.Inv conf) : s.Safe conf := by
  refine ⟨hs.size_eq, hs.size_le, fun c => (hs.owners c).1, fun c => (hs.owners c).2,
    fun c_in hnone => ?_⟩
  obtain ⟨e, hput, -⟩ := Entries.put_spec (s.expired conf s.clock) hs.size_eq conf.limit c_in
  rw [hput] at hnone
  cases hnone

/-! ### How long the connection handed out has been idle -/

/-- What the loop erases and what it leaves. -/
theorem Entries.purge_pool (expired : ℕ → Bool) (p : List ℕ) : ∀ (size : ℤ) (closed : List ℕ),
    (purge expired size closed p).pool = p.dropWhile expired := by
  induction p with
  | nil => exact fun _ _ => rfl
  | cons c p ih =>
    intro size closed
    rw [purge]
    by_cases hc : expired c = true
    · rw [if_pos hc, ih, List.dropWhile_cons_of_pos hc]
    · rw [if_neg hc, List.dropWhile_cons_of_neg hc]

theorem Entries.get_fst (expired : ℕ → Bool) (e : Entries) :
    (e.get expired).1 = (e.pool.dropWhile expired).head? := by
  have hpool := purge_pool expired e.pool e.size e.closed
  simp only [get]
  cases h : (purge expired e.size e.closed e.pool).pool <;> rw [← hpool, h] <;> rfl

/-- What is expired stays expired, so the two readings find the same entries expired in front
exactly when the later one does not find the next entry expired. -/
theorem takeWhile_eq_iff {early late : ℕ → Bool} (hle : ∀ c, early c = true → late c = true)
    (p : List ℕ) :
    p.takeWhile early = p.takeWhile late ↔ ∀ c ∈ (p.dropWhile early).head?, late c = false := by
  induction p with
  | nil => exact iff_of_true rfl fun c hc => nomatch hc
  | cons d p ih =>
    by_cases hd : early d = true
    · rw [List.takeWhile_cons_of_pos hd, List.takeWhile_cons_of_pos (hle d hd),
        List.dropWhile_cons_of_pos hd, List.cons_inj_right]
      exact ih
    · rw [List.takeWhile_cons_of_neg hd, List.dropWhile_cons_of_neg hd, List.head?_cons]
      simp only [Option.mem_some_iff, forall_eq']
      cases hlate : late d with
      | false => simp [hlate]
      | true => simp [hlate]

/-- **A step hands out a connection that has not been idle for too long exactly when no entry in
front expires while it waits for the lock.** -/
theorem Pool.Inv.handsOutFresh_iff {conf : PoolConf} {s s' : Pool} {a : PoolAction}
    (hs : s.Inv conf) (h : s.step conf a = some s') :
    HandsOutFresh conf s a ↔ InTime conf s a := by
  cases a with
  | get now =>
    rw [step, Option.ite_none_right_eq_some] at h
    have hread := hs.read now h.1
    have hle : ∀ c, s.expired conf now c = true → s.expired conf s.clock c = true := by
      intro c hc
      simp only [expired, decide_eq_true_eq] at hc ⊢
      omega
    simp only [HandsOutFresh, InTime, takeWhile_eq_iff hle, Entries.get_fst, expired,
      decide_eq_false_iff_not, Nat.not_lt]
  | _ => exact Iff.rfl

/-- **The pool hands out no connection that has been idle for longer than the life time exactly in
the runs in which no entry in front expires between a `get`'s clock reading and its lock**.  That it
counts right, keeps its limit and gives every live connection one owner holds of all runs. -/
theorem pool_safe_iff (conf : PoolConf) (hlimit : 0 < conf.limit) (actions : List PoolAction)
    {s : Pool} (h : (poolSystem conf).run (Pool.init conf) actions = some s) :
    (poolSystem conf).Throughout (Pool.Safe conf) (Pool.init conf) actions ∧
      ((poolSystem conf).Meets (HandsOutFresh conf) (Pool.init conf) actions ↔
        (poolSystem conf).Meets (InTime conf) (Pool.init conf) actions) := by
  constructor
  · intro pre post t _ ht
    exact (Pool.inv_reachable hlimit
      (System.Reachable.start.run pre (System.meets_anyStep _ _) ht)).safe
  · exact System.meets_congr (I := Pool.Inv conf)
      (fun _ _ _ hs hstep => Pool.inv_step hlimit hs hstep)
      (fun _ _ _ hs hstep => hs.handsOutFresh_iff hstep) actions (Pool.inv_init conf) h

/-- Two connections come back in the wrong order: the one in front is handed out at the end of its
life time, and only then the expired one behind it is found. -/
def reusedRun : List PoolAction :=
  [.open, .get 100, .connected, .open, .get 100, .connected, .release 0, .tick 3, .release 1,
    .put 1, .put 0, .tick 5, .open, .get 108, .gc]

/-- An `open` reads the clock and waits for the lock while the life time of the only entry runs
out. -/
def idleRun : List PoolAction :=
  [.open, .get 100, .connected, .open, .release 0, .put 0, .tick 10, .get 100]

theorem pool_safe_iff_runs :
    (∃ s, (poolSystem ⟨2, 5, 100⟩).run (Pool.init ⟨2, 5, 100⟩) reusedRun = some s ∧
      s.raiis = [1] ∧ s.entries = ⟨[], 0, [0]⟩ ∧ s.Safe ⟨2, 5, 100⟩ ∧
      (poolSystem ⟨2, 5, 100⟩).Meets (HandsOutFresh ⟨2, 5, 100⟩) (Pool.init ⟨2, 5, 100⟩)
        reusedRun) ∧
    ¬(poolSystem ⟨2, 5, 100⟩).Meets (HandsOutFresh ⟨2, 5, 100⟩) (Pool.init ⟨2, 5, 100⟩)
      idleRun := by
  have hreused := pool_safe_iff ⟨2, 5, 100⟩ (by decide) reusedRun rfl
  have hidle := pool_safe_iff ⟨2, 5, 100⟩ (by decide) idleRun rfl
  refine ⟨⟨_, rfl, rfl, rfl, hreused.1 reusedRun [] _ (List.append_nil _).symm rfl,
    hreused.2.mpr (by decide)⟩, fun h => ?_⟩
  have hlate : ¬(poolSystem ⟨2, 5, 100⟩).Meets (InTime ⟨2, 5, 100⟩) (Pool.init ⟨2, 5, 100⟩)
      idleRun := by decide
  exact hlate (hidle.2.mp h)

/-- **A connection is handed out that has been idle for ten seconds, with a life time of five.** -/
theorem idle_connection_handed_out : ∃ s s',
    (poolSystem ⟨2, 5, 100⟩).run (Pool.init ⟨2, 5, 100⟩)
      [.open, .get 100, .connected, .open, .release 0, .put 0, .tick 10] = some s ∧
    s.step ⟨2, 5, 100⟩ (.get 100) = some s' ∧ s.raiis = [] ∧ s'.raiis = [0] ∧
    s.lastUsed 0 = 100 ∧ s'.clock = 110 ∧ ¬HandsOutFresh ⟨2, 5, 100⟩ s (.get 100) :=
  ⟨_, _, rfl, rfl, rfl, rfl, rfl, rfl, by decide⟩

end Rojcpp.Sql
