import Mathlib.Algebra.Ring.Nat
import Mathlib.Data.List.AList
import Rojcpp.Lib.System

/-!
# `Fastcache`

A cache in shards, each with its mutex and its container.  A key belongs to the shard its hash
names, and every member function locks one shard at a time.  An item is valid up to and including
its expiration second; the background thread reads the clock and then erases what has expired,
shard by shard, while `get` erases what it finds expired.

Times are nanoseconds of the steady clock, expirations are seconds.  Seconds are `int64` numbers and
stand here as integers; a duration so long that its sum with the clock leaves that range is not
modelled.
-/

namespace Rojcpp.Tools

open Rojcpp.Lib Function

/-! ### Items -/

/-- `std::chrono::time_point_cast<Duration_type>`. -/
def seconds (t : ℕ) : ℤ := (t / 1000000000 : ℕ)

/-- `CacheItem`. -/
structure CacheItem (V : Type) where
  data : V
  expiration : ℤ
  deriving DecidableEq, Repr

/-- The constructor of `CacheItem`, at the time `now`. -/
def CacheItem.new {V : Type} (data : V) (expired_duration_time : ℤ) (now : ℕ) : CacheItem V :=
  ⟨data, seconds now + expired_duration_time⟩

/-- `expired`. -/
def CacheItem.expired {V : Type} (item : CacheItem V) (now_time : ℕ) : Bool :=
  decide (item.expiration < seconds now_time)

/-- Seconds do not go back. -/
theorem seconds_mono {t u : ℕ} (h : t ≤ u) : seconds t ≤ seconds u :=
  Int.ofNat_le.mpr (Nat.div_le_div_right h)

/-- What has expired stays expired. -/
theorem expired_mono {V : Type} {item : CacheItem V} {t u : ℕ} (h : t ≤ u)
    (he : item.expired t = true) : item.expired u = true := by
  rw [CacheItem.expired, decide_eq_true_eq] at he ⊢
  exact Int.lt_of_lt_of_le he (seconds_mono h)

/-! ### Shards -/

/-- `Shard`: its container holds every key once. -/
abbrev Shard (K V : Type) : Type := AList fun _ : K => CacheItem V

/-- `Shard::del_expired_keys`. -/
def Shard.delExpiredKeys {K V : Type} (s : Shard K V) (now_time : ℕ) : Shard K V :=
  ⟨s.entries.filter fun e => !e.2.expired now_time, s.nodupKeys.sublist List.filter_sublist⟩

/-- `m_shards`. -/
abbrev Fastcache (K V : Type) (n : ℕ) : Type := Fin n → Shard K V

section
variable {K V : Type} [DecidableEq K] {n : ℕ} [NeZero n] (hash : K → ℕ)

/-- `calc_index`. -/
def calcIndex (n : ℕ) [NeZero n] (hash : K → ℕ) (key : K) : Fin n := Fin.ofNat n (hash key)

/-- `total_size`. -/
def Fastcache.totalSize (c : Fastcache K V n) : ℕ :=
  ((List.finRange n).map fun i => (c i).entries.length).sum

/-- `set`. -/
def Fastcache.set (c : Fastcache K V n) (key : K) (val : V) (expiration : ℤ) (now : ℕ) :
    Fastcache K V n :=
  let index := calcIndex n hash key
  update c index ((c index).insert key (CacheItem.new val expiration now))

/-- `exists`. -/
def Fastcache.existsKey (c : Fastcache K V n) (key : K) : Bool :=
  ((c (calcIndex n hash key)).lookup key).isSome

/-- `del`: how many keys were erased, and the cache. -/
def Fastcache.del (c : Fastcache K V n) (key : K) : ℕ × Fastcache K V n :=
  let index := calcIndex n hash key
  (if key ∈ c index then 1 else 0, update c index ((c index).erase key))

/-- `new_expire`. -/
def Fastcache.newExpire (c : Fastcache K V n) (key : K) (expiration : ℤ) (now : ℕ) :
    Fastcache K V n :=
  let index := calcIndex n hash key
  match (c index).lookup key with
  | none => c
  | some item =>
    update c index
      ((c index).insert key { item with expiration := seconds now + expiration })

/-- `get`: the value, and the cache without the key when that had expired. -/
def Fastcache.get (c : Fastcache K V n) (key : K) (now : ℕ) : Option V × Fastcache K V n :=
  let index := calcIndex n hash key
  match (c index).lookup key with
  | none => (none, c)
  | some item =>
    if item.expired now = true then (none, update c index ((c index).erase key))
    else (some item.data, c)

/-- `del_expired_keys` of one shard. -/
def Fastcache.purge (c : Fastcache K V n) (i : Fin n) (now_time : ℕ) : Fastcache K V n :=
  update c i (Shard.delExpiredKeys (c i) now_time)

/-! ### What the operations do to a key -/

/-- The item stored for a key. -/
def Fastcache.find (c : Fastcache K V n) (key : K) : Option (CacheItem V) :=
  (c (calcIndex n hash key)).lookup key

/-- A change of one shard that touches one of its keys only. -/
theorem find_update {c : Fastcache K V n} {key : K} {s : Shard K V} {item : Option (CacheItem V)}
    (hkey : s.lookup key = item)
    (hother : ∀ k, k ≠ key → s.lookup k = (c (calcIndex n hash key)).lookup k) (k : K) :
    Fastcache.find hash (update c (calcIndex n hash key) s) k =
      if k = key then item else c.find hash k := by
  by_cases hk : k = key
  · rw [if_pos hk, Fastcache.find, hk, update_self, hkey]
  · rw [if_neg hk, Fastcache.find, Fastcache.find]
    by_cases hi : calcIndex n hash k = calcIndex n hash key
    · rw [hi, update_self, hother k hk]
    · rw [update_of_ne hi]

theorem find_set (c : Fastcache K V n) (key : K) (val : V) (expiration : ℤ) (now : ℕ) (k : K) :
    (c.set hash key val expiration now).find hash k =
      if k = key then some (CacheItem.new val expiration now) else c.find hash k :=
  find_update hash (AList.lookup_insert _) (fun _ hk => AList.lookup_insert_ne hk) k

theorem find_del (c : Fastcache K V n) (key k : K) :
    (c.del hash key).2.find hash k = if k = key then none else c.find hash k :=
  find_update hash (AList.lookup_erase _ _) (fun _ hk => AList.lookup_erase_ne hk) k

theorem find_newExpire (c : Fastcache K V n) (key : K) (expiration : ℤ) (now : ℕ) (k : K) :
    (c.newExpire hash key expiration now).find hash k =
      if k = key then
        (c.find hash key).map fun item => { item with expiration := seconds now + expiration }
      else c.find hash k := by
  cases hfind : c.find hash key with
  | none =>
    have hsame : c.newExpire hash key expiration now = c := by
      rw [Fastcache.find] at hfind
      rw [Fastcache.newExpire]
      simp only [hfind]
    rw [hsame, Option.map_none]
    split
    · rename_i hk
      rw [hk, hfind]
    · rfl
  | some item =>
    have hinsert : c.newExpire hash key expiration now = update c (calcIndex n hash key)
        ((c (calcIndex n hash key)).insert key
          { item with expiration := seconds now + expiration }) := by
      rw [Fastcache.find] at hfind
      rw [Fastcache.newExpire]
      simp only [hfind]
    rw [hinsert, Option.map_some]
    exact find_update hash (AList.lookup_insert _) (fun _ hk => AList.lookup_insert_ne hk) k

theorem find_get (c : Fastcache K V n) (key : K) (now : ℕ) (k : K) :
    (c.get hash key now).2.find hash k =
      if k = key then (c.find hash key).filter fun item => !item.expired now
      else c.find hash k := by
  cases hfind : c.find hash key with
  | none =>
    have hsame : c.get hash key now = (none, c) := by
      rw [Fastcache.find] at hfind
      rw [Fastcache.get]
      simp only [hfind]
    rw [hsame, Option.filter_none]
    split
    · rename_i hk
      rw [hk, hfind]
    · rfl
  | some item =>
    rw [Fastcache.find] at hfind
    by_cases hexp : item.expired now = true
    · have herase : c.get hash key now = (none, update c (calcIndex n hash key)
          ((c (calcIndex n hash key)).erase key)) := by
        rw [Fastcache.get]
        simp only [hfind, if_pos hexp]
      have hgone : (some item).filter (fun item => !item.expired now) = none := by
        rw [Option.filter_some, hexp, Bool.not_true, if_neg (by simp)]
      rw [herase, hgone]
      exact find_update hash (AList.lookup_erase _ _) (fun _ hk => AList.lookup_erase_ne hk) k
    · have hsame : c.get hash key now = (some item.data, c) := by
        rw [Fastcache.get]
        simp only [hfind, if_neg hexp]
      have hkept : (some item).filter (fun item => !item.expired now) = some item := by
        rw [Option.filter_some, Bool.eq_false_iff.mpr hexp, Bool.not_false, if_pos rfl]
      rw [hsame, hkept]
      split
      · rename_i hk
        rw [hk, Fastcache.find, hfind]
      · rfl

/-- `del_expired_keys` keeps what has not expired. -/
theorem lookup_delExpiredKeys (s : Shard K V) (now_time : ℕ) (k : K) :
    (Shard.delExpiredKeys s now_time).lookup k =
      (s.lookup k).filter fun item => !item.expired now_time := by
  cases hs : s.lookup k with
  | none =>
    rw [Option.filter_none, AList.lookup_eq_none]
    rw [AList.lookup_eq_none] at hs
    intro hmem
    exact hs ((List.filter_sublist.map _).subset hmem)
  | some item =>
    have hmem : (⟨k, item⟩ : Sigma fun _ : K => CacheItem V) ∈ s.entries :=
      AList.mem_lookup_iff.mp hs
    rw [Option.filter_some]
    split
    · rename_i hvalid
      exact AList.mem_lookup_iff.mpr (List.mem_filter.mpr ⟨hmem, hvalid⟩)
    · rename_i hexp
      rw [AList.lookup_eq_none]
      intro hk
      obtain ⟨⟨k', item'⟩, he, hkey⟩ := List.mem_map.mp hk
      obtain ⟨hmem', hvalid⟩ := List.mem_filter.mp he
      cases hkey
      rw [AList.mem_lookup_iff.mpr hmem'] at hs
      cases hs
      exact hexp hvalid

theorem find_purge (c : Fastcache K V n) (i : Fin n) (now_time : ℕ) (k : K) :
    (c.purge i now_time).find hash k =
      if calcIndex n hash k = i then
        (c.find hash k).filter fun item => !item.expired now_time
      else c.find hash k := by
  by_cases hi : calcIndex n hash k = i
  · rw [if_pos hi, Fastcache.find, Fastcache.purge, hi, update_self, lookup_delExpiredKeys,
      Fastcache.find, hi]
  · rw [if_neg hi, Fastcache.find, Fastcache.purge, update_of_ne hi, Fastcache.find]

theorem del_count (c : Fastcache K V n) (key : K) :
    (c.del hash key).1 = if (c.find hash key).isSome = true then 1 else 0 := by
  show (if key ∈ c (calcIndex n hash key) then 1 else 0) = _
  simp only [Fastcache.find, AList.lookup_isSome]

/-- `get` answers with what is stored and has not expired. -/
theorem get_value (c : Fastcache K V n) (key : K) (now : ℕ) :
    (c.get hash key now).1 =
      ((c.find hash key).filter fun item => !item.expired now).map CacheItem.data := by
  rw [Fastcache.get, Fastcache.find]
  cases hfind : (c (calcIndex n hash key)).lookup key with
  | none => rfl
  | some item =>
    rw [Option.filter_some]
    by_cases hexp : item.expired now = true
    · simp [hexp]
    · simp [hexp]

end

/-! ### Every key in its shard -/

section
variable {K V : Type} {n : ℕ} [NeZero n] (hash : K → ℕ)

/-- Every stored key is in the shard its hash names. -/
def Home (c : Fastcache K V n) : Prop := ∀ i, ∀ k ∈ c i, calcIndex n hash k = i

/-- A change of one shard that adds no other key than its own. -/
theorem home_update {c : Fastcache K V n} (hc : Home hash c) {i : Fin n} {s : Shard K V}
    (hs : ∀ k ∈ s, calcIndex n hash k = i ∨ k ∈ c i) : Home hash (update c i s) := by
  intro j k hk
  by_cases hj : j = i
  · rw [hj, update_self] at hk
    rw [hj]
    cases hs k hk with
    | inl hi => exact hi
    | inr hi => exact hc i k hi
  · rw [update_of_ne hj] at hk
    exact hc j k hk

theorem home_purge {c : Fastcache K V n} (hc : Home hash c) (i : Fin n) (now_time : ℕ) :
    Home hash (c.purge i now_time) :=
  home_update hash hc fun _ hk => .inr ((List.filter_sublist.map _).subset hk)

end

section
variable {K V : Type} [DecidableEq K] {n : ℕ} [NeZero n] (hash : K → ℕ)

theorem home_insert {c : Fastcache K V n} (hc : Home hash c) (key : K) (item : CacheItem V) :
    Home hash (update c (calcIndex n hash key)
      ((c (calcIndex n hash key)).insert key item)) := by
  refine home_update hash hc fun k hk => ?_
  cases (AList.mem_insert _).mp hk with
  | inl hkey => exact .inl (by rw [hkey])
  | inr hold => exact .inr hold

theorem home_erase {c : Fastcache K V n} (hc : Home hash c) (key : K) :
    Home hash (update c (calcIndex n hash key) ((c (calcIndex n hash key)).erase key)) :=
  home_update hash hc fun _ hk => .inr (AList.mem_erase.mp hk).2

theorem home_newExpire {c : Fastcache K V n} (hc : Home hash c) (key : K) (expiration : ℤ)
    (now : ℕ) : Home hash (c.newExpire hash key expiration now) := by
  rw [Fastcache.newExpire]
  split
  · exact hc
  · exact home_insert hash hc key _

theorem home_get {c : Fastcache K V n} (hc : Home hash c) (key : K) (now : ℕ) :
    Home hash (c.get hash key now).2 := by
  rw [Fastcache.get]
  split
  · exact hc
  · split
    · exact home_erase hash hc key
    · exact hc

end

/-! ### Calls and the background thread -/

/-- The calls of the cache's users. -/
inductive CacheCall (K V : Type) where
  | set (key : K) (val : V) (expiration : ℤ)
  | get (key : K)
  | exists_ (key : K)
  | del (key : K)
  | newExpire (key : K) (expiration : ℤ)
  deriving DecidableEq, Repr

/-- What a call returns. -/
inductive CacheAnswer (V : Type) where
  | nothing
  | value (v : Option V)
  | found (b : Bool)
  | erased (count : ℕ)
  deriving DecidableEq, Repr

/-- The steps: a user's call at a time, the loop of `total_size`, the background thread reading the
clock, and the background thread purging one shard with the time it has read. -/
inductive CacheAction (K V : Type) (n : ℕ) where
  | call (t : ℕ) (c : CacheCall K V)
  | totalSize (t : ℕ)
  | check (t : ℕ)
  | purge (i : Fin n)
  deriving DecidableEq, Repr

/-- The cache, the time of the last step, the time the background thread has read, and the answers
given so far. -/
structure CacheState (K V : Type) (n : ℕ) where
  cache : Fastcache K V n
  now : ℕ
  checkTime : ℕ
  answers : List (CacheAnswer V)

section
variable {K V : Type} [DecidableEq K]

/-- What a call does to what is stored for a key. -/
def CacheCall.act (k : K) (t : ℕ) : CacheCall K V → Option (CacheItem V) → Option (CacheItem V)
  | .set key val expiration, old => if k = key then some (CacheItem.new val expiration t) else old
  | .get key, old => if k = key then old.filter fun item => !item.expired t else old
  | .exists_ _, old => old
  | .del key, old => if k = key then none else old
  | .newExpire key expiration, old =>
    if k = key then old.map fun item => { item with expiration := seconds t + expiration } else old

/-- What a call answers, from what is stored. -/
def CacheCall.answer (t : ℕ) (stored : K → Option (CacheItem V)) : CacheCall K V → CacheAnswer V
  | .set _ _ _ => .nothing
  | .get key => .value (((stored key).filter fun item => !item.expired t).map CacheItem.data)
  | .exists_ key => .found (stored key).isSome
  | .del key => .erased (if (stored key).isSome = true then 1 else 0)
  | .newExpire _ _ => .nothing

end

section
variable {K V : Type} [DecidableEq K] {n : ℕ} [NeZero n] (hash : K → ℕ)

/-- One call: its answer, and the cache after it. -/
def Fastcache.call (c : Fastcache K V n) (t : ℕ) : CacheCall K V → CacheAnswer V × Fastcache K V n
  | .set key val expiration => (.nothing, c.set hash key val expiration t)
  | .get key => let r := c.get hash key t; (.value r.1, r.2)
  | .exists_ key => (.found (c.existsKey hash key), c)
  | .del key => let r := c.del hash key; (.erased r.1, r.2)
  | .newExpire key expiration => (.nothing, c.newExpire hash key expiration t)

/-- One step; no step goes back in time. -/
def cacheStep (s : CacheState K V n) : CacheAction K V n → Option (CacheState K V n)
  | .call t c =>
    if s.now ≤ t then
      let r := s.cache.call hash t c
      some { s with cache := r.2, now := t, answers := s.answers ++ [r.1] }
    else none
  | .totalSize t => if s.now ≤ t then some { s with now := t } else none
  | .check t => if s.now ≤ t then some { s with now := t, checkTime := t } else none
  | .purge i => some { s with cache := s.cache.purge i s.checkTime }

/-- A new cache at the start of the clock. -/
def fastcache (K V : Type) [DecidableEq K] (n : ℕ) [NeZero n] (hash : K → ℕ) :
    System (CacheState K V n) (CacheAction K V n) :=
  ⟨⟨fun _ => ∅, 0, 0, []⟩, cacheStep hash⟩

theorem find_call (c : Fastcache K V n) (t : ℕ) (call : CacheCall K V) (k : K) :
    (c.call hash t call).2.find hash k = call.act k t (c.find hash k) := by
  cases call with
  | set key val expiration => exact find_set hash c key val expiration t k
  | get key =>
    show (c.get hash key t).2.find hash k = _
    rw [find_get, CacheCall.act]
    split
    · rename_i hk
      rw [hk]
    · rfl
  | exists_ key => rfl
  | del key => exact find_del hash c key k
  | newExpire key expiration =>
    show (c.newExpire hash key expiration t).find hash k = _
    rw [find_newExpire, CacheCall.act]
    split
    · rename_i hk
      rw [hk]
    · rfl

theorem answer_call (c : Fastcache K V n) (t : ℕ) (call : CacheCall K V) :
    (c.call hash t call).1 = call.answer t (c.find hash) := by
  cases call with
  | set key val expiration => rfl
  | get key =>
    show CacheAnswer.value (c.get hash key t).1 = _
    rw [get_value]
    rfl
  | exists_ key => rfl
  | del key =>
    show CacheAnswer.erased (c.del hash key).1 = _
    rw [del_count]
    rfl
  | newExpire key expiration => rfl

theorem home_call {c : Fastcache K V n} (hc : Home hash c) (t : ℕ) (call : CacheCall K V) :
    Home hash (c.call hash t call).2 := by
  cases call with
  | set key val expiration => exact home_insert hash hc key _
  | get key => exact home_get hash hc key t
  | exists_ key => exact hc
  | del key => exact home_erase hash hc key
  | newExpire key expiration => exact home_newExpire hash hc key expiration t

/-- What each step does. -/
inductive CacheEffect (s : CacheState K V n) : CacheAction K V n → CacheState K V n → Prop
  | call {t : ℕ} {c : CacheCall K V} (hle : s.now ≤ t) :
    CacheEffect s (.call t c) ⟨(s.cache.call hash t c).2, t, s.checkTime,
      s.answers ++ [(s.cache.call hash t c).1]⟩
  | totalSize {t : ℕ} (hle : s.now ≤ t) : CacheEffect s (.totalSize t) { s with now := t }
  | check {t : ℕ} (hle : s.now ≤ t) :
    CacheEffect s (.check t) { s with now := t, checkTime := t }
  | purge {i : Fin n} :
    CacheEffect s (.purge i) { s with cache := s.cache.purge i s.checkTime }

theorem cacheEffect_of_step {s s' : CacheState K V n} {a : CacheAction K V n}
    (h : cacheStep hash s a = some s') : CacheEffect hash s a s' := by
  cases a with
  | call t c =>
    simp only [cacheStep, Option.ite_none_right_eq_some, Option.some.injEq] at h
    obtain ⟨hle, rfl⟩ := h
    exact .call hle
  | totalSize t =>
    simp only [cacheStep, Option.ite_none_right_eq_some, Option.some.injEq] at h
    obtain ⟨hle, rfl⟩ := h
    exact .totalSize hle
  | check t =>
    simp only [cacheStep, Option.ite_none_right_eq_some, Option.some.injEq] at h
    obtain ⟨hle, rfl⟩ := h
    exact .check hle
  | purge i =>
    cases h
    exact .purge

/-- One step keeps every key in its shard. -/
theorem home_step {s s' : CacheState K V n} {a : CacheAction K V n} (hs : Home hash s.cache)
    (h : cacheStep hash s a = some s') : Home hash s'.cache := by
  cases cacheEffect_of_step hash h with
  | call hle => exact home_call hash hs _ _
  | totalSize hle => exact hs
  | check hle => exact hs
  | purge => exact home_purge hash hs _ s.checkTime

/-- The times of a step: the clock goes on, and the background thread has read it before. -/
theorem times_step {s s' : CacheState K V n} {a : CacheAction K V n} (hs : s.checkTime ≤ s.now)
    (h : cacheStep hash s a = some s') : s.now ≤ s'.now ∧ s'.checkTime ≤ s'.now := by
  cases cacheEffect_of_step hash h with
  | call hle => exact ⟨hle, Nat.le_trans hs hle⟩
  | totalSize hle => exact ⟨hle, Nat.le_trans hs hle⟩
  | check hle => exact ⟨hle, Nat.le_refl _⟩
  | purge => exact ⟨Nat.le_refl _, hs⟩

end

end Rojcpp.Tools
