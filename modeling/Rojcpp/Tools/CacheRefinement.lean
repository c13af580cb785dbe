import Mathlib.Algebra.BigOperators.Fin
import Rojcpp.Tools.FastCache

/-!
# The sharded cache is one map with times

For any hash and any number of shards, what `get` answers is determined by the last `set` or `del`
of the key: the value of a `set`, up to and including the second of the call plus the duration it
asks for.  The map keeps the calls themselves; what the cache keeps of them is `SetCall.item`.
Items that have expired may still be stored or not, depending on what `get` and the background
thread have erased.
Every key is stored in the shard of its hash only, so that the sizes of the shards add up to the
number of the keys.
-/

namespace Rojcpp.Tools

open Rojcpp.Lib

variable {K V : Type} [DecidableEq K] {n : ℕ}

/-! ### The history of a key -/

/-- A `set` of a key: the value, the duration in seconds, and the time of the call. -/
structure SetCall (V : Type) where
  value : V
  duration : ℤ
  time : ℕ
  deriving DecidableEq, Repr

/-- What the cache stores for a `set`. -/
def SetCall.item (w : SetCall V) : CacheItem V := CacheItem.new w.value w.duration w.time

/-- What a step writes for a key: the call of a `set`, or nothing. -/
def CacheAction.writes (k : K) : CacheAction K V n → Option (Option (SetCall V))
  | .call t (.set key val expiration) =>
    if key = k then some (some ⟨val, expiration, t⟩) else none
  | .call _ (.del key) => if key = k then some none else none
  | .call _ (.get _) => none
  | .call _ (.exists_ _) => none
  | .call _ (.newExpire _ _) => none
  | .totalSize _ => none
  | .check _ => none
  | .purge _ => none

/-- What the latest `set` or `del` of a key wrote. -/
def lastWrite (as : List (CacheAction K V n)) (k : K) : Option (Option (SetCall V)) :=
  (as.filterMap (CacheAction.writes k)).getLast?

/-- The step is a `new_expire`. -/
def CacheAction.renews : CacheAction K V n → Bool
  | .call _ (.newExpire _ _) => true
  | _ => false

theorem lastWrite_concat (as : List (CacheAction K V n)) (a : CacheAction K V n) (k : K) :
    lastWrite (as ++ [a]) k = (a.writes k).or (lastWrite as k) := by
  rw [lastWrite, lastWrite, List.filterMap_append, List.filterMap_cons, List.filterMap_nil]
  cases a.writes k with
  | none => rw [List.append_nil, Option.none_or]
  | some w => rw [List.getLast?_concat, Option.some_or]

/-- An item expires when the second of the `set` plus its duration is over. -/
theorem SetCall.item_expired (w : SetCall V) (t : ℕ) :
    w.item.expired t = true ↔
      ((w.time / 1000000000 : ℕ) : ℤ) + w.duration < (t / 1000000000 : ℕ) :=
  decide_eq_true_iff

/-- What is stored for a key agrees with its latest write: an item that is stored is that of the
`set`, and the item of a `set` is stored unless it has expired. -/
structure Agrees (now : ℕ) (written : Option (Option (SetCall V)))
    (stored : Option (CacheItem V)) : Prop where
  earlier : ∀ item, stored = some item → ∃ w, written = some (some w) ∧ w.item = item
  kept : ∀ w, written = some (some w) → stored = some w.item ∨ w.item.expired now = true

section
variable {now t : ℕ} {written : Option (Option (SetCall V))} {stored : Option (CacheItem V)}

theorem Agrees.later (h : Agrees now written stored) (hle : now ≤ t) :
    Agrees t written stored where
  earlier := h.earlier
  kept w hw := (h.kept w hw).imp id (expired_mono hle)

/-- Erasing what has expired. -/
theorem Agrees.filter (h : Agrees now written stored) (hle : t ≤ now) :
    Agrees now written (stored.filter fun item => !item.expired t) where
  earlier item hitem := h.earlier item (Option.filter_eq_some_iff.mp hitem).1
  kept w hw := by
    cases h.kept w hw with
    | inl hstored =>
      by_cases hexp : w.item.expired t = true
      · exact .inr (expired_mono hle hexp)
      · refine .inl (Option.filter_eq_some_iff.mpr ⟨hstored, ?_⟩)
        rw [Bool.eq_false_iff.mpr hexp, Bool.not_false]
    | inr hexp => exact .inr hexp

theorem agrees_set (w : SetCall V) : Agrees now (some (some w)) (some w.item) where
  earlier item hitem := ⟨w, rfl, Option.some.inj hitem⟩
  kept other hother := by
    cases hother
    exact .inl rfl

theorem agrees_del : Agrees now (some none) (none : Option (CacheItem V)) where
  earlier item hitem := by cases hitem
  kept other hother := by cases hother

/-- **What `get` may answer**, by the latest write. -/
theorem Agrees.value (h : Agrees now written stored) (hle : now ≤ t) (v : V) :
    (stored.filter fun item => !item.expired t).map CacheItem.data = some v ↔
      ∃ w, written = some (some w) ∧ w.value = v ∧
        ((t / 1000000000 : ℕ) : ℤ) ≤ (w.time / 1000000000 : ℕ) + w.duration := by
  have hvalid : ∀ w : SetCall V, (!w.item.expired t) = true ↔
      ((t / 1000000000 : ℕ) : ℤ) ≤ (w.time / 1000000000 : ℕ) + w.duration := by
    intro w
    rw [Bool.not_eq_true', ← Bool.not_eq_true, w.item_expired, Int.not_lt]
  rw [Option.map_eq_some_iff]
  constructor
  · intro hvalue
    obtain ⟨item, hitem, hdata⟩ := hvalue
    obtain ⟨hstored, htime⟩ := Option.filter_eq_some_iff.mp hitem
    obtain ⟨w, hw, rfl⟩ := h.earlier item hstored
    exact ⟨w, hw, hdata, (hvalid w).mp htime⟩
  · intro hwritten
    obtain ⟨w, hw, hdata, htime⟩ := hwritten
    refine ⟨w.item, Option.filter_eq_some_iff.mpr ⟨?_, (hvalid w).mpr htime⟩, hdata⟩
    cases h.kept w hw with
    | inl hstored => exact hstored
    | inr hexp =>
      have hlate := (w.item_expired t).mp (expired_mono hle hexp)
      exact absurd hlate (Int.not_lt.mpr htime)

end

/-! ### The refinement -/

section
variable [NeZero n] (hash : K → ℕ)

/-- The refinement: every key agrees with its latest write and is in its shard, and the background
thread has not read a time that is still to come. -/
structure Refines (as : List (CacheAction K V n)) (s : CacheState K V n) : Prop where
  agrees : ∀ k, Agrees s.now (lastWrite as k) (s.cache.find hash k)
  home : Home hash s.cache
  checked : s.checkTime ≤ s.now

theorem refines_start : Refines hash [] (fastcache K V n hash).start where
  agrees k := by
    refine ⟨fun item hitem => ?_, fun w hw => ?_⟩
    · cases hitem
    · cases hw
  home i k hk := absurd hk (AList.notMem_empty k)
  checked := Nat.le_refl 0

/-- One call other than `new_expire` keeps the agreement. -/
theorem agrees_call {as : List (CacheAction K V n)} {s : CacheState K V n} {t : ℕ}
    {call : CacheCall K V} (hs : Refines hash as s) (hle : s.now ≤ t)
    (hplain : (CacheAction.call t call : CacheAction K V n).renews = false) (k : K) :
    Agrees t (lastWrite (as ++ [.call t call]) k) ((s.cache.call hash t call).2.find hash k) := by
  have hold := (hs.agrees k).later hle
  rw [lastWrite_concat, find_call]
  cases call with
  | set key val expiration =>
    rw [CacheCall.act]
    by_cases hk : k = key
    · rw [if_pos hk, CacheAction.writes, if_pos hk.symm]
      exact agrees_set ⟨val, expiration, t⟩
    · rw [if_neg hk, CacheAction.writes, if_neg (Ne.symm hk)]
      exact hold
  | get key =>
    rw [CacheCall.act]
    split
    · exact hold.filter (Nat.le_refl t)
    · exact hold
  | exists_ key => exact hold
  | del key =>
    rw [CacheCall.act]
    by_cases hk : k = key
    · rw [if_pos hk, CacheAction.writes, if_pos hk.symm]
      exact agrees_del
    · rw [if_neg hk, CacheAction.writes, if_neg (Ne.symm hk)]
      exact hold
  | newExpire key expiration => cases hplain

/-- **One step keeps the refinement.** -/
theorem refines_step {as : List (CacheAction K V n)} {s s' : CacheState K V n}
    {a : CacheAction K V n} (hs : Refines hash as s) (hplain : a.renews = false)
    (h : cacheStep hash s a = some s') : Refines hash (as ++ [a]) s' := by
  refine ⟨?_, home_step hash hs.home h, (times_step hash hs.checked h).2⟩
  intro k
  cases cacheEffect_of_step hash h with
  | call hle => exact agrees_call hash hs hle hplain k
  | totalSize hle =>
    rw [lastWrite_concat]
    exact (hs.agrees k).later hle
  | check hle =>
    rw [lastWrite_concat]
    exact (hs.agrees k).later hle
  | purge =>
    rw [lastWrite_concat]
    show Agrees s.now _ ((s.cache.purge _ s.checkTime).find hash k)
    rw [find_purge]
    split
    · exact (hs.agrees k).filter hs.checked
    · exact hs.agrees k

/-- The refinement holds after every run without `new_expire`. -/
theorem refines_run {as : List (CacheAction K V n)} (hplain : ∀ a ∈ as, a.renews = false)
    {s : CacheState K V n}
    (hrun : (fastcache K V n hash).run (fastcache K V n hash).start as = some s) :
    Refines hash as s := by
  refine System.run_history (P := fun as s => (∀ a ∈ as, a.renews = false) → Refines hash as s)
    (fun _ => refines_start hash) (fun as s a s' ih h hplain => ?_) as hrun hplain
  exact refines_step hash (ih fun b hb => hplain b (by simp [hb])) (hplain a (by simp)) h

end

/-! ### The number of keys -/

/-- The keys that are stored in some shard. -/
def storedKeys (c : Fastcache K V n) : Finset K := Finset.univ.biUnion fun i => (c i).keys.toFinset

section
variable [NeZero n] (hash : K → ℕ)

/-- When every key is in its own shard, the sizes add up to the number of keys. -/
theorem totalSize_eq_card {c : Fastcache K V n} (hc : Home hash c) :
    c.totalSize = (storedKeys c).card := by
  have hdisjoint : ((Finset.univ : Finset (Fin n)) : Set (Fin n)).PairwiseDisjoint
      fun i => (c i).keys.toFinset := by
    intro i _ j _ hij
    show Disjoint (c i).keys.toFinset (c j).keys.toFinset
    rw [Finset.disjoint_left]
    intro k hi hj
    have hki : calcIndex n hash k = i := hc i k (List.mem_toFinset.mp hi)
    have hkj : calcIndex n hash k = j := hc j k (List.mem_toFinset.mp hj)
    exact hij (hki.symm.trans hkj)
  have hsize : ∀ i, (c i).keys.toFinset.card = (c i).entries.length := by
    intro i
    rw [List.toFinset_card_of_nodup (c i).keys_nodup]
    exact List.length_map _
  rw [storedKeys, Finset.card_biUnion hdisjoint, Fastcache.totalSize, Fin.sum_univ_def]
  simp only [hsize]

/-- **The shards together are one map with times**: `get` answers with the value of the latest `set`
of the key, when no `del` came after and the second of the `set` plus its duration is not over; a
key is in its own shard only, and `total_size` counts the keys. -/
theorem fastcache_refines {as : List (CacheAction K V n)} (hplain : ∀ a ∈ as, a.renews = false)
    {s : CacheState K V n}
    (hrun : (fastcache K V n hash).run (fastcache K V n hash).start as = some s) :
    (∀ k t v, s.now ≤ t → ((s.cache.get hash k t).1 = some v ↔
      ∃ w, lastWrite as k = some (some w) ∧ w.value = v ∧
        ((t / 1000000000 : ℕ) : ℤ) ≤ (w.time / 1000000000 : ℕ) + w.duration)) ∧
    (∀ i k, k ∈ s.cache i → i = calcIndex n hash k) ∧
    s.cache.totalSize = (storedKeys s.cache).card := by
  have hs := refines_run hash hplain hrun
  refine ⟨?_, fun i k hk => (hs.home i k hk).symm, totalSize_eq_card hash hs.home⟩
  intro k t v hle
  rw [get_value]
  exact (hs.agrees k).value hle v

end

/-- Two keys of one shard; the background thread purges the one that has expired. -/
def collisionRun : List (CacheAction ℕ ℕ 2) :=
  [.call 0 (.set 1 10 3), .call 0 (.set 3 30 9), .check 4000000000, .purge (Fin.last 1),
    .totalSize 4000000000, .call 5000000000 (.get 1)]

theorem collisionRun_lastWrite : lastWrite collisionRun 3 = some (some ⟨30, 9, 0⟩) := by rfl

/-- The key that is left has its value up to the end of second 9, and none in second 10. -/
theorem fastcache_refines_collision :
    ∃ s, (fastcache ℕ ℕ 2 id).run (fastcache ℕ ℕ 2 id).start collisionRun = some s ∧
      (s.cache.get id 3 9999999999).1 = some 30 ∧
      (∀ v, (s.cache.get id 3 10000000000).1 ≠ some v) ∧
      s.cache.totalSize = (storedKeys s.cache).card ∧ s.cache.totalSize = 1 := by
  refine ⟨_, rfl, ?_⟩
  have hplain : ∀ a ∈ collisionRun, a.renews = false := by decide
  have hrefines := fastcache_refines id hplain rfl
  refine ⟨(hrefines.1 3 9999999999 30 (by decide)).mpr ⟨_, collisionRun_lastWrite, rfl, by decide⟩,
    fun v hv => ?_, hrefines.2.2, rfl⟩
  obtain ⟨w, hw, -, htime⟩ := (hrefines.1 3 10000000000 v (by decide)).mp hv
  rw [collisionRun_lastWrite] at hw
  cases hw
  exact absurd htime (by decide)

end Rojcpp.Tools
