import Mathlib.Data.List.Induction
import Rojcpp.Tools.FastCache

/-!
# What can be seen of the purging

`get` treats an expired item as if it were gone; `exists` and `del` look at what is stored, and
`new_expire` gives an expired item that is still stored a new time.  Their answers therefore depend
on whether the background thread came first.  The calls alone decide for which sequences this can
happen: a call has to meet an expired item, or one that was renewed after it had expired.
-/

namespace Rojcpp.Tools

open Rojcpp.Lib

variable {K V : Type} [DecidableEq K] {n : ℕ}

/-! ### Calls without the background thread -/

/-- An item, and whether it has been renewed after it had expired. -/
structure Tracked (V : Type) where
  item : CacheItem V
  late : Bool
  deriving DecidableEq, Repr

/-- One call, for one key. -/
def CacheCall.track (k : K) (t : ℕ) : CacheCall K V → Option (Tracked V) → Option (Tracked V)
  | .set key val expiration, old =>
    if k = key then some ⟨CacheItem.new val expiration t, false⟩ else old
  | .get key, old => if k = key then old.filter fun x => !x.item.expired t else old
  | .exists_ _, old => old
  | .del key, old => if k = key then none else old
  | .newExpire key expiration, old =>
    if k = key then
      old.map fun x =>
        ⟨{ x.item with expiration := seconds t + expiration }, x.late || x.item.expired t⟩
    else old

/-- The items that calls at their times leave when nothing is purged, and their answers. -/
def track (ops : List (ℕ × CacheCall K V)) : (K → Option (Tracked V)) × List (CacheAnswer V) :=
  ops.foldl
    (fun s op =>
      (fun k => op.2.track k op.1 (s.1 k),
        s.2 ++ [op.2.answer op.1 fun k => (s.1 k).map Tracked.item]))
    (fun _ => none, [])

/-- The call cannot tell whether the background thread has been there: `get` meets no item that was
renewed after it had expired, unless that has expired again, and `exists` and `del` meet neither
such an item nor an expired one. -/
def CacheCall.Settled (t : ℕ) (before : K → Option (Tracked V)) : CacheCall K V → Prop
  | .set _ _ _ => True
  | .get key => ∀ x, before key = some x → x.late = true → x.item.expired t = true
  | .exists_ key => ∀ x, before key = some x → x.late = false ∧ x.item.expired t = false
  | .del key => ∀ x, before key = some x → x.late = false ∧ x.item.expired t = false
  | .newExpire _ _ => True

/-- Every call of the sequence is settled by the calls before it. -/
def Settled (ops : List (ℕ × CacheCall K V)) : Prop :=
  ∀ pre t c post, ops = pre ++ (t, c) :: post → c.Settled t (track pre).1

theorem track_concat (ops : List (ℕ × CacheCall K V)) (t : ℕ) (c : CacheCall K V) :
    track (ops ++ [(t, c)]) =
      (fun k => c.track k t ((track ops).1 k),
        (track ops).2 ++ [c.answer t fun k => ((track ops).1 k).map Tracked.item]) := by
  rw [track, List.foldl_append]
  rfl

theorem settled_nil : Settled ([] : List (ℕ × CacheCall K V)) := by
  intro pre t c post hops
  cases pre with
  | nil => cases hops
  | cons op pre => cases hops

theorem Settled.concat {ops : List (ℕ × CacheCall K V)} (h : Settled ops) {t : ℕ}
    {c : CacheCall K V} (hc : c.Settled t (track ops).1) : Settled (ops ++ [(t, c)]) := by
  intro pre t' c' post hops
  cases List.eq_nil_or_concat post with
  | inl hnil =>
    rw [hnil] at hops
    obtain ⟨hpre, hlast⟩ := List.append_inj' hops rfl
    cases hlast
    rwa [← hpre]
  | inr hpost =>
    obtain ⟨post', last, hpost⟩ := hpost
    rw [hpost, List.concat_eq_append, ← List.cons_append, ← List.append_assoc] at hops
    exact h pre t' c' post' (List.append_inj' hops rfl).1

theorem Settled.of_concat {ops : List (ℕ × CacheCall K V)} {op : ℕ × CacheCall K V}
    (h : Settled (ops ++ [op])) : Settled ops := by
  intro pre t c post hops
  refine h pre t c (post ++ [op]) ?_
  rw [hops, List.append_assoc, List.cons_append]

/-! ### What may be stored -/

/-- What is stored at a time, against what would be without purging: an item is missing only when
it has expired, or was renewed after that. -/
inductive Follows (now : ℕ) : Option (Tracked V) → Option (CacheItem V) → Prop
  | absent : Follows now none none
  | stored (x : Tracked V) : Follows now (some x) (some x.item)
  | lost (x : Tracked V) (h : x.late = true ∨ x.item.expired now = true) :
      Follows now (some x) none

section
variable {now t : ℕ} {old : Option (Tracked V)} {stored : Option (CacheItem V)}

theorem Follows.later (h : Follows now old stored) (hle : now ≤ t) : Follows t old stored := by
  cases h with
  | absent => exact .absent
  | stored x => exact .stored x
  | lost x h => exact .lost x (h.imp id (expired_mono hle))

/-- Erasing what has expired. -/
theorem Follows.filter (h : Follows now old stored) (hle : t ≤ now) :
    Follows now old (stored.filter fun item => !item.expired t) := by
  cases h with
  | absent => exact .absent
  | lost x h => exact .lost x h
  | stored x =>
    by_cases hexp : x.item.expired t = true
    · rw [Option.filter_some, hexp, Bool.not_true, if_neg Bool.false_ne_true]
      exact .lost x (.inr (expired_mono hle hexp))
    · rw [Option.filter_some, Bool.eq_false_iff.mpr hexp, Bool.not_false, if_pos rfl]
      exact .stored x

/-- **One call**, on both sides. -/
theorem Follows.call (h : Follows t old stored) (c : CacheCall K V) (k : K) :
    Follows t (c.track k t old) (c.act k t stored) := by
  cases c with
  | set key val expiration =>
    rw [CacheCall.track, CacheCall.act]
    split
    · exact .stored ⟨CacheItem.new val expiration t, false⟩
    · exact h
  | exists_ key => exact h
  | del key =>
    rw [CacheCall.track, CacheCall.act]
    split
    · exact .absent
    · exact h
  | get key =>
    rw [CacheCall.track, CacheCall.act]
    split
    · cases h with
      | absent => exact .absent
      | stored x =>
        rw [Option.filter_some, Option.filter_some]
        split
        · exact .stored x
        · exact .absent
      | lost x h =>
        rw [Option.filter_some, Option.filter_none]
        split
        · exact .lost x h
        · exact .absent
    · exact h
  | newExpire key expiration =>
    rw [CacheCall.track, CacheCall.act]
    split
    · cases h with
      | absent => exact .absent
      | stored x => exact .stored ⟨_, _⟩
      | lost x h => exact .lost ⟨_, _⟩ (.inl (by rw [Bool.or_eq_true]; exact h))
    · exact h

/-- An item that was not renewed late and has not expired is stored. -/
theorem Follows.present (h : Follows t old stored)
    (hold : ∀ x, old = some x → x.late = false ∧ x.item.expired t = false) :
    stored = old.map Tracked.item := by
  cases h with
  | absent => rfl
  | stored x => rfl
  | lost x hlost =>
    obtain ⟨hlate, hexp⟩ := hold x rfl
    cases hlost with
    | inl h => exact absurd (h.symm.trans hlate) (by simp)
    | inr h => exact absurd (h.symm.trans hexp) (by simp)

/-- Expired items aside, what was not renewed late is stored. -/
theorem Follows.valid (h : Follows t old stored)
    (hold : ∀ x, old = some x → x.late = true → x.item.expired t = true) :
    (stored.filter fun item => !item.expired t) =
      (old.map Tracked.item).filter fun item => !item.expired t := by
  cases h with
  | absent => rfl
  | stored x => rfl
  | lost x hlost =>
    have hexp : x.item.expired t = true := hlost.elim (hold x rfl) id
    rw [Option.map_some, Option.filter_some, hexp, Bool.not_true, if_neg Bool.false_ne_true]
    rfl

end

omit [DecidableEq K] in
/-- **A settled call** answers as if nothing had been purged. -/
theorem answer_settled {t : ℕ} {before : K → Option (Tracked V)}
    {stored : K → Option (CacheItem V)} (h : ∀ k, Follows t (before k) (stored k))
    {c : CacheCall K V} (hc : c.Settled t before) :
    c.answer t stored = c.answer t fun k => (before k).map Tracked.item := by
  cases c with
  | set key val expiration => rfl
  | get key => rw [CacheCall.answer, CacheCall.answer, (h key).valid hc]
  | exists_ key => rw [CacheCall.answer, CacheCall.answer, (h key).present hc]
  | del key => rw [CacheCall.answer, CacheCall.answer, (h key).present hc]
  | newExpire key expiration => rfl

/-! ### Every run -/

/-- The call of a step, with its time. -/
def CacheAction.call? : CacheAction K V n → Option (ℕ × CacheCall K V)
  | .call t c => some (t, c)
  | .totalSize _ => none
  | .check _ => none
  | .purge _ => none

/-- The calls of a run, whenever the background thread came. -/
def callsOf (as : List (CacheAction K V n)) : List (ℕ × CacheCall K V) :=
  as.filterMap CacheAction.call?

omit [DecidableEq K] in
theorem callsOf_append (as bs : List (CacheAction K V n)) :
    callsOf (as ++ bs) = callsOf as ++ callsOf bs := List.filterMap_append

omit [DecidableEq K] in
theorem callsOf_other {a : CacheAction K V n} (ha : a.call? = none)
    (as : List (CacheAction K V n)) : callsOf (as ++ [a]) = callsOf as := by
  rw [callsOf_append, callsOf, callsOf, List.filterMap_cons_none ha, List.filterMap_nil,
    List.append_nil]

section
variable [NeZero n] (hash : K → ℕ)

/-- What is stored follows the calls, and as long as they are settled so do the answers. -/
structure Tracks (as : List (CacheAction K V n)) (s : CacheState K V n) : Prop where
  follows : ∀ k, Follows s.now ((track (callsOf as)).1 k) (s.cache.find hash k)
  checked : s.checkTime ≤ s.now
  answers : Settled (callsOf as) → s.answers = (track (callsOf as)).2

theorem tracks_start : Tracks hash [] (fastcache K V n hash).start where
  follows _ := .absent
  checked := Nat.le_refl 0
  answers _ := rfl

/-- A step that is no call. -/
theorem Tracks.other {as : List (CacheAction K V n)} {s s' : CacheState K V n}
    {a : CacheAction K V n} (hs : Tracks hash as s) (ha : a.call? = none)
    (hfollows : ∀ k, Follows s'.now ((track (callsOf as)).1 k) (s'.cache.find hash k))
    (hchecked : s'.checkTime ≤ s'.now) (hanswers : s'.answers = s.answers) :
    Tracks hash (as ++ [a]) s' := by
  refine ⟨?_, hchecked, ?_⟩
  · rw [callsOf_other ha]
    exact hfollows
  · rw [callsOf_other ha, hanswers]
    exact hs.answers

/-- **One step keeps track.** -/
theorem tracks_step {as : List (CacheAction K V n)} {s s' : CacheState K V n}
    {a : CacheAction K V n} (hs : Tracks hash as s) (h : cacheStep hash s a = some s') :
    Tracks hash (as ++ [a]) s' := by
  have hchecked := (times_step hash hs.checked h).2
  cases cacheEffect_of_step hash h with
  | @call t c hle =>
    have hcalls : callsOf (as ++ [CacheAction.call t c]) = callsOf as ++ [(t, c)] :=
      callsOf_append as _
    have hfollows := fun k => (hs.follows k).later hle
    refine ⟨?_, hchecked, ?_⟩
    · intro k
      rw [hcalls, track_concat]
      show Follows t _ ((s.cache.call hash t c).2.find hash k)
      rw [find_call]
      exact (hfollows k).call c k
    · intro hsettled
      rw [hcalls] at hsettled ⊢
      have hc : c.Settled t (track (callsOf as)).1 := hsettled _ t c [] rfl
      show s.answers ++ [(s.cache.call hash t c).1] = _
      rw [track_concat, hs.answers hsettled.of_concat, answer_call, answer_settled hfollows hc]
  | totalSize hle => exact hs.other hash rfl (fun k => (hs.follows k).later hle) hchecked rfl
  | check hle => exact hs.other hash rfl (fun k => (hs.follows k).later hle) hchecked rfl
  | purge =>
    refine hs.other hash rfl (fun k => ?_) hchecked rfl
    show Follows s.now _ ((s.cache.purge _ s.checkTime).find hash k)
    rw [find_purge]
    split
    · exact (hs.follows k).filter hs.checked
    · exact hs.follows k

theorem tracks_run (as : List (CacheAction K V n)) {s : CacheState K V n}
    (h : (fastcache K V n hash).run (fastcache K V n hash).start as = some s) :
    Tracks hash as s :=
  System.run_history (tracks_start hash) (fun _ _ _ _ ih h => tracks_step hash ih h) as h

end

/-! ### Schedules of the background thread -/

/-- The calls, each after the steps that `before` gives for its time. -/
def schedule (before : ℕ → List (CacheAction K V n)) (ops : List (ℕ × CacheCall K V)) :
    List (CacheAction K V n) :=
  ops.flatMap fun op => before op.1 ++ [.call op.1 op.2]

/-- The background thread goes through all shards. -/
def purgeAll (K V : Type) (n t : ℕ) : List (CacheAction K V n) :=
  .check t :: (List.finRange n).map .purge

omit [DecidableEq K] in
theorem schedule_append (before : ℕ → List (CacheAction K V n))
    (ops ops' : List (ℕ × CacheCall K V)) :
    schedule before (ops ++ ops') = schedule before ops ++ schedule before ops' :=
  List.flatMap_append

omit [DecidableEq K] in
theorem callsOf_schedule {before : ℕ → List (CacheAction K V n)}
    (hbefore : ∀ t, callsOf (before t) = []) (ops : List (ℕ × CacheCall K V)) :
    callsOf (schedule before ops) = ops := by
  induction ops with
  | nil => rfl
  | cons op ops ih =>
    show callsOf (before op.1 ++ [CacheAction.call op.1 op.2] ++ schedule before ops) = _
    rw [callsOf_append, callsOf_append, hbefore, ih]
    rfl

omit [DecidableEq K] in
theorem callsOf_purgeAll (t : ℕ) : callsOf (purgeAll K V n t) = [] := by
  show ((List.finRange n).map CacheAction.purge).filterMap CacheAction.call? = []
  rw [List.filterMap_map]
  exact List.filterMap_eq_nil_iff.mpr fun _ _ => rfl

section
variable [NeZero n] (hash : K → ℕ)

/-- A run only adds answers. -/
theorem answers_run (as : List (CacheAction K V n)) :
    ∀ {s s' : CacheState K V n}, (fastcache K V n hash).run s as = some s' →
      ∃ rest, s'.answers = s.answers ++ rest := by
  induction as with
  | nil =>
    intro s s' h
    cases h
    exact ⟨[], (List.append_nil _).symm⟩
  | cons a as ih =>
    intro s s' h
    obtain ⟨u, hu, h⟩ := Option.bind_eq_some_iff.mp h
    obtain ⟨rest, hrest⟩ := ih h
    have hstep : ∃ first, u.answers = s.answers ++ first := by
      cases cacheEffect_of_step hash hu with
      | call hle => exact ⟨_, rfl⟩
      | totalSize hle => exact ⟨[], (List.append_nil _).symm⟩
      | check hle => exact ⟨[], (List.append_nil _).symm⟩
      | purge => exact ⟨[], (List.append_nil _).symm⟩
    obtain ⟨first, hfirst⟩ := hstep
    exact ⟨first ++ rest, by rw [hrest, hfirst, List.append_assoc]⟩

/-- What a schedule keeps: `P` after the calls so far, `R` when the next call comes. -/
structure Schedules (before : ℕ → List (CacheAction K V n))
    (P : List (ℕ × CacheCall K V) → Fastcache K V n → Prop)
    (R : List (ℕ × CacheCall K V) → ℕ → Fastcache K V n → Prop) : Prop where
  start : P [] (fun _ => ∅)
  prepare : ∀ pre t s, P pre s.cache → s.now ≤ t →
    ∃ s', (fastcache K V n hash).run s (before t) = some s' ∧ s'.now ≤ t ∧
      s'.answers = s.answers ∧ R pre t s'.cache
  call : ∀ pre t c cache, R pre t cache → P (pre ++ [(t, c)]) (cache.call hash t c).2

variable {hash} {before : ℕ → List (CacheAction K V n)}
  {P : List (ℕ × CacheCall K V) → Fastcache K V n → Prop}
  {R : List (ℕ × CacheCall K V) → ℕ → Fastcache K V n → Prop}

/-- The times of the calls do not go back. -/
def Timed (ops : List (ℕ × CacheCall K V)) : Prop := (ops.map Prod.fst).Pairwise (· ≤ ·)

omit [DecidableEq K] in
theorem Timed.of_append {pre post : List (ℕ × CacheCall K V)} (h : Timed (pre ++ post)) :
    Timed pre ∧ ∀ op ∈ pre, ∀ op' ∈ post, op.1 ≤ op'.1 := by
  rw [Timed, List.map_append, List.pairwise_append] at h
  exact ⟨h.1, fun op hop op' hop' =>
    h.2.2 op.1 (List.mem_map_of_mem hop) op'.1 (List.mem_map_of_mem hop')⟩

theorem call_step {s : CacheState K V n} {t : ℕ} (hle : s.now ≤ t) (c : CacheCall K V) :
    (fastcache K V n hash).run s [.call t c] = some
      { s with
        cache := (s.cache.call hash t c).2
        now := t
        answers := s.answers ++ [(s.cache.call hash t c).1] } := by
  show ((if s.now ≤ t then _ else none : Option (CacheState K V n)).bind some) = _
  rw [if_pos hle]
  rfl

/-- **A schedule runs** through all calls, and every call is answered once. -/
theorem Schedules.run (hsched : Schedules hash before P R) (ops : List (ℕ × CacheCall K V)) :
    Timed ops → ∃ s, (fastcache K V n hash).run (fastcache K V n hash).start
        (schedule before ops) = some s ∧
      (∀ t, (∀ op ∈ ops, op.1 ≤ t) → s.now ≤ t) ∧ s.answers.length = ops.length ∧
      P ops s.cache := by
  induction ops using List.reverseRecOn with
  | nil => exact fun _ => ⟨_, rfl, fun t _ => Nat.zero_le t, rfl, hsched.start⟩
  | append_singleton ops op ih =>
    intro htimes
    obtain ⟨hpre, hlast⟩ := htimes.of_append
    obtain ⟨s, hrun, hnow, hlen, hP⟩ := ih hpre
    obtain ⟨t, c⟩ := op
    have hle : s.now ≤ t := hnow t fun op hop => hlast op hop (t, c) (List.mem_singleton_self _)
    obtain ⟨u, hu, hut, hanswers, hR⟩ := hsched.prepare ops t s hP hle
    have hone : schedule before [(t, c)] = before t ++ [.call t c] := List.append_nil _
    refine ⟨⟨(u.cache.call hash t c).2, t, u.checkTime,
      u.answers ++ [(u.cache.call hash t c).1]⟩, ?_, ?_, ?_, hsched.call ops t c u.cache hR⟩
    · rw [schedule_append, System.run_append, hrun, Option.bind_some, hone, System.run_append, hu,
        Option.bind_some]
      exact call_step hut c
    · intro t' hall
      exact hall (t, c) (List.mem_append_right _ (List.mem_singleton_self _))
    · show (u.answers ++ _).length = _
      rw [hanswers, List.length_append, List.length_append, hlen]
      rfl

/-- **What a schedule answers** to one of its calls. -/
theorem Schedules.answer (hsched : Schedules hash before P R) {pre post : List (ℕ × CacheCall K V)}
    {t : ℕ} {c : CacheCall K V} (htimes : Timed (pre ++ (t, c) :: post)) :
    ∃ s cache, (fastcache K V n hash).run (fastcache K V n hash).start
        (schedule before (pre ++ (t, c) :: post)) = some s ∧
      s.answers[pre.length]? = some (c.answer t (cache.find hash)) ∧ R pre t cache := by
  obtain ⟨s, hrun, -⟩ := hsched.run _ htimes
  obtain ⟨hpre, hlast⟩ := htimes.of_append
  obtain ⟨s₀, hrun₀, hnow, hlen, hP⟩ := hsched.run pre hpre
  have hle : s₀.now ≤ t := hnow t fun op hop => hlast op hop (t, c) List.mem_cons_self
  obtain ⟨u, hu, hut, hanswers, hR⟩ := hsched.prepare pre t s₀ hP hle
  refine ⟨s, u.cache, hrun, ?_, hR⟩
  have hcons : schedule before ((t, c) :: post) =
      before t ++ ([.call t c] ++ schedule before post) := List.append_assoc _ _ _
  rw [schedule_append, System.run_append, hrun₀, Option.bind_some, hcons, System.run_append, hu,
    Option.bind_some, System.run_append, call_step hut c, Option.bind_some] at hrun
  obtain ⟨rest, hrest⟩ := answers_run hash _ hrun
  rw [hrest, hanswers, ← hlen, List.append_assoc, List.getElem?_append_right (Nat.le_refl _),
    Nat.sub_self, answer_call]
  rfl

/-! ### No purge, and all purges -/

omit [NeZero n] in
theorem track_item (c : CacheCall K V) (k : K) (t : ℕ) (old : Option (Tracked V)) :
    (c.track k t old).map Tracked.item = c.act k t (old.map Tracked.item) := by
  cases c with
  | set key val expiration =>
    rw [CacheCall.track, CacheCall.act]
    split
    · rfl
    · rfl
  | get key =>
    rw [CacheCall.track, CacheCall.act]
    split
    · cases old with
      | none => rfl
      | some x =>
        rw [Option.filter_some, Option.map_some, Option.filter_some]
        split
        · rfl
        · rfl
    · rfl
  | exists_ key => rfl
  | del key =>
    rw [CacheCall.track, CacheCall.act]
    split
    · rfl
    · rfl
  | newExpire key expiration =>
    rw [CacheCall.track, CacheCall.act]
    split
    · rw [Option.map_map, Option.map_map]
      rfl
    · rfl

variable (hash) in
/-- Without the background thread everything stays. -/
theorem kept_schedules : Schedules hash (fun _ => ([] : List (CacheAction K V n)))
    (fun ops cache => ∀ k, cache.find hash k = ((track ops).1 k).map Tracked.item)
    (fun ops _ cache => ∀ k, cache.find hash k = ((track ops).1 k).map Tracked.item) where
  start _ := rfl
  prepare pre t s hs hle := ⟨s, rfl, hle, rfl, hs⟩
  call pre t c cache hcache k := by
    rw [find_call, hcache, track_concat]
    exact (track_item c k t _).symm

variable (hash) in
/-- The background thread in some shards. -/
theorem purges_run (is : List (Fin n)) : ∀ s : CacheState K V n,
    ∃ s', (fastcache K V n hash).run s (is.map .purge) = some s' ∧ s'.now = s.now ∧
      s'.answers = s.answers ∧ s'.checkTime = s.checkTime ∧
      ∀ k, (calcIndex n hash k ∈ is → s'.cache.find hash k =
          (s.cache.find hash k).filter fun item => !item.expired s.checkTime) ∧
        (calcIndex n hash k ∉ is → s'.cache.find hash k = s.cache.find hash k) := by
  induction is with
  | nil =>
    intro s
    exact ⟨s, rfl, rfl, rfl, rfl, fun k => ⟨fun h => absurd h List.not_mem_nil, fun _ => rfl⟩⟩
  | cons i is ih =>
    intro s
    obtain ⟨s', hrun, hnow, hanswers, htime, hfind⟩ :=
      ih { s with cache := s.cache.purge i s.checkTime }
    refine ⟨s', hrun, hnow, hanswers, htime, fun k => ?_⟩
    have hpurge := find_purge hash s.cache i s.checkTime k
    obtain ⟨hin, hout⟩ := hfind k
    by_cases hi : calcIndex n hash k = i
    · rw [if_pos hi] at hpurge
      refine ⟨fun _ => ?_, fun hmem => absurd (List.mem_cons.mpr (.inl hi)) hmem⟩
      by_cases his : calcIndex n hash k ∈ is
      · -- what the first pass over the shard has left is not erased by the next
        rw [hin his, hpurge, Option.filter_filter]
        simp only [Bool.and_self]
      · rw [hout his, hpurge]
    · rw [if_neg hi] at hpurge
      refine ⟨fun hmem => ?_, fun hmem => ?_⟩
      · rw [hin ((List.mem_cons.mp hmem).resolve_left hi), hpurge]
      · rw [hout fun his => hmem (List.mem_cons_of_mem _ his), hpurge]

variable (hash) in
/-- A pass of the background thread erases what has expired when it reads the clock. -/
theorem purgeAll_run (s : CacheState K V n) {t : ℕ} (hle : s.now ≤ t) :
    ∃ s', (fastcache K V n hash).run s (purgeAll K V n t) = some s' ∧ s'.now = t ∧
      s'.answers = s.answers ∧
      ∀ k, s'.cache.find hash k = (s.cache.find hash k).filter fun item => !item.expired t := by
  obtain ⟨s', hrun, hnow, hanswers, -, hfind⟩ :=
    purges_run hash (List.finRange n) { s with now := t, checkTime := t }
  refine ⟨s', ?_, hnow, hanswers, fun k => ?_⟩
  · show ((if s.now ≤ t then _ else none : Option (CacheState K V n)).bind _) = _
    rw [if_pos hle]
    exact hrun
  · rw [(hfind k).1 (List.mem_finRange _)]

omit [NeZero n] in
/-- A call after a pass of the background thread. -/
theorem purged_call {c : CacheCall K V} {k : K} {t : ℕ} {old : Option (Tracked V)}
    {stored : Option (CacheItem V)} {x : Tracked V}
    (h : ∀ y, old = some y →
      stored = none ∨ stored = some y.item ∧ y.late = false ∧ y.item.expired t = false)
    (hx : c.track k t old = some x) :
    c.act k t stored = none ∨ c.act k t stored = some x.item ∧ x.late = false := by
  have hsame : ∀ y, old = some y → stored = none ∨ stored = some y.item ∧ y.late = false :=
    fun y hy => (h y hy).imp id fun hsome => ⟨hsome.1, hsome.2.1⟩
  cases c with
  | set key val expiration =>
    rw [CacheCall.track] at hx
    rw [CacheCall.act]
    split at hx
    · rename_i hk
      cases hx
      exact .inr ⟨if_pos hk, rfl⟩
    · rename_i hk
      rw [if_neg hk]
      exact hsame x hx
  | get key =>
    rw [CacheCall.track] at hx
    rw [CacheCall.act]
    split at hx
    · rename_i hk
      obtain ⟨hold, hvalid⟩ := Option.filter_eq_some_iff.mp hx
      rw [if_pos hk]
      cases hsame x hold with
      | inl hnone => exact .inl (by rw [hnone]; rfl)
      | inr hsome =>
        refine .inr ⟨?_, hsome.2⟩
        rw [hsome.1, Option.filter_some, if_pos hvalid]
    · rename_i hk
      rw [if_neg hk]
      exact hsame x hx
  | exists_ key => exact hsame x hx
  | del key =>
    rw [CacheCall.track] at hx
    rw [CacheCall.act]
    split at hx
    · cases hx
    · rename_i hk
      rw [if_neg hk]
      exact hsame x hx
  | newExpire key expiration =>
    rw [CacheCall.track] at hx
    rw [CacheCall.act]
    split at hx
    · rename_i hk
      rw [if_pos hk]
      obtain ⟨y, hy, rfl⟩ := Option.map_eq_some_iff.mp hx
      cases h y hy with
      | inl hnone => exact .inl (by rw [hnone]; rfl)
      | inr hsome =>
        obtain ⟨hsome, hlate, hexp⟩ := hsome
        refine .inr ⟨by rw [hsome]; rfl, ?_⟩
        show (y.late || y.item.expired t) = false
        rw [hlate, hexp, Bool.or_false]
    · rename_i hk
      rw [if_neg hk]
      exact hsame x hx

variable (hash) in
/-- When the background thread is always first, what has expired and what was renewed late is
gone. -/
theorem purged_schedules : Schedules hash (purgeAll K V n)
    (fun ops cache => ∀ k x, (track ops).1 k = some x →
      cache.find hash k = none ∨ cache.find hash k = some x.item ∧ x.late = false)
    (fun ops t cache => ∀ k x, (track ops).1 k = some x →
      cache.find hash k = none ∨
        cache.find hash k = some x.item ∧ x.late = false ∧ x.item.expired t = false) where
  start k x hx := by cases hx
  prepare pre t s hs hle := by
    obtain ⟨s', hrun, hnow, hanswers, hfind⟩ := purgeAll_run hash s hle
    refine ⟨s', hrun, Nat.le_of_eq hnow, hanswers, fun k x hx => ?_⟩
    rw [hfind]
    cases hs k x hx with
    | inl hnone =>
      rw [hnone]
      exact .inl rfl
    | inr hsome =>
      obtain ⟨hsome, hlate⟩ := hsome
      rw [hsome, Option.filter_some]
      split
      · rename_i hvalid
        exact .inr ⟨rfl, hlate, by rwa [Bool.not_eq_true'] at hvalid⟩
      · exact .inl rfl
  call pre t c cache hcache k x hx := by
    rw [track_concat] at hx
    rw [find_call]
    exact purged_call (hcache k) hx

end

/-! ### The answers -/

section
variable [NeZero n] (hash : K → ℕ)

omit [DecidableEq K] [NeZero n] in
/-- A call that answers the same with no purge and with all purges is settled. -/
theorem settled_of_answers {t : ℕ} {c : CacheCall K V} {before : K → Option (Tracked V)}
    {stored : K → Option (CacheItem V)}
    (hstored : ∀ k x, before k = some x → stored k = none ∨
      stored k = some x.item ∧ x.late = false ∧ x.item.expired t = false)
    (hanswer : c.answer t (fun k => (before k).map Tracked.item) = c.answer t stored) :
    c.Settled t before := by
  cases c with
  | set key val expiration => exact trivial
  | newExpire key expiration => exact trivial
  | exists_ key =>
    intro x hx
    cases hstored key x hx with
    | inr hsome => exact hsome.2
    | inl hnone =>
      simp only [CacheCall.answer, hx, hnone] at hanswer
      cases hanswer
  | del key =>
    intro x hx
    cases hstored key x hx with
    | inr hsome => exact hsome.2
    | inl hnone =>
      simp only [CacheCall.answer, hx, hnone] at hanswer
      cases hanswer
  | get key =>
    intro x hx hlate
    cases hstored key x hx with
    | inr hsome => exact absurd (hlate.symm.trans hsome.2.1) (by simp)
    | inl hnone =>
      by_contra hexp
      simp only [CacheCall.answer, hx, hnone, Option.map_some, Option.filter_some,
        Bool.eq_false_iff.mpr hexp, Bool.not_false, if_pos] at hanswer
      cases hanswer

/-- **The answers do not depend on the background thread exactly when every call is settled.** -/
theorem answers_determined_iff {ops : List (ℕ × CacheCall K V)} (htimes : Timed ops) :
    (∀ (as bs : List (CacheAction K V n)) (s s' : CacheState K V n),
      callsOf as = ops → callsOf bs = ops →
      (fastcache K V n hash).run (fastcache K V n hash).start as = some s →
      (fastcache K V n hash).run (fastcache K V n hash).start bs = some s' →
      s.answers = s'.answers) ↔ Settled ops := by
  constructor
  · intro hsame pre t c post hops
    rw [hops] at htimes
    obtain ⟨s, kept, hrun, hkept, hfind⟩ := (kept_schedules (n := n) hash).answer htimes
    obtain ⟨s', purged, hrun', hpurged, hgone⟩ := (purged_schedules (n := n) hash).answer htimes
    rw [← hops] at hrun hrun'
    have hanswers := hsame _ _ s s' (callsOf_schedule (fun _ => rfl) ops)
      (callsOf_schedule callsOf_purgeAll ops) hrun hrun'
    rw [hanswers, hpurged, Option.some.injEq, funext hfind] at hkept
    exact settled_of_answers hgone hkept.symm
  · intro hsettled as bs s s' has hbs hrun hrun'
    have hs := (tracks_run hash as hrun).answers (by rwa [has])
    have hs' := (tracks_run hash bs hrun').answers (by rwa [hbs])
    rw [hs, hs', has, hbs]

end

/-- An item that is asked for by `exists` before and by `get` after it has expired. -/
def validCalls : List (ℕ × CacheCall String String) :=
  [(0, .set "key1" "hello" 3), (2000000000, .exists_ "key1"), (4000000000, .get "key1")]

theorem answers_determined_valid :
    Settled validCalls ∧
      ∀ (as bs : List (CacheAction String String 2)) (s s' : CacheState String String 2),
        callsOf as = validCalls → callsOf bs = validCalls →
        (fastcache String String 2 String.length).run
          (fastcache String String 2 String.length).start as = some s →
        (fastcache String String 2 String.length).run
          (fastcache String String 2 String.length).start bs = some s' →
        s.answers = s'.answers := by
  have hsettled : Settled validCalls := by
    refine ((settled_nil.concat (t := 0) (c := .set "key1" "hello" 3) trivial).concat
      (t := 2000000000) (c := .exists_ "key1") ?_).concat (t := 4000000000) (c := .get "key1") ?_
    · intro x hx
      cases hx
      exact ⟨rfl, by decide⟩
    · intro x hx hlate
      cases hx
      cases hlate
  refine ⟨hsettled, (answers_determined_iff String.length ?_).mpr hsettled⟩
  show [0, 2000000000, 4000000000].Pairwise (· ≤ ·)
  decide

/-- **An expired key still exists** until the background thread comes. -/
theorem expired_key_exists :
    ∃ s s' : CacheState String String 2,
      (fastcache String String 2 String.length).run (fastcache String String 2 String.length).start
        [.call 0 (.set "key1" "hello" 3), .call 4000000000 (.exists_ "key1")] = some s ∧
      (fastcache String String 2 String.length).run (fastcache String String 2 String.length).start
        [.call 0 (.set "key1" "hello" 3), .check 4000000000, .purge 0,
          .call 4000000000 (.exists_ "key1")] = some s' ∧
      s.answers = [.nothing, .found true] ∧ s'.answers = [.nothing, .found false] :=
  ⟨_, _, rfl, rfl, rfl, rfl⟩

end Rojcpp.Tools
