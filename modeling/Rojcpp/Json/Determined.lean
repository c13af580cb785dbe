import Mathlib.Data.List.TakeWhile
import Rojcpp.Json.Boundaries
import Rojcpp.Json.JudgeEntiy

/-!
# Which bodies `loads<judgeEntiy>` can read

`loads` starts from an object whose numbers are whatever the memory holds, lets the setters of the
members that `parse` finds assign to it, and returns it.  Every exception on the way ends in its own
`catch`, which prints it and goes on to the end of the function, where nothing is returned; so no
exception ever leaves, and only a returned object is a defined outcome.

The theorem says for which bodies there is one, the same whatever the memory held: the text is in
braces, `parse` finds no name but those of the fields, and it finds both numbers.
-/

namespace Rojcpp.Json

open Rojcpp.Lib

/-- `loads<judgeEntiy>` returns an object that depends on the text alone.  `junk` is the memory of
the variable in the setter of a number, and `m₀` and `t₀` are that of the two numbers of the
object. -/
def Determined (o : MapOrder) (json : Str) : Prop :=
  ∃ x, ∀ junk m₀ t₀, loads o junk (JudgeEntiy.fresh m₀ t₀).object json = .returned x

/-- What a body must be like: in braces, with no names but those of the fields, and with a text for
each of the numbers that is not all white space. -/
def CompleteBody (json : Str) : Prop :=
  ∃ conf, parse json = .ok conf ∧ (∀ e ∈ conf, e.1 = classNameKey ∨ e.1 ∈ judgeKeys) ∧
    ∀ key ∈ [memoryLimitKey, timeLimitKey], ∃ t, (key, t) ∈ conf ∧ ∃ c ∈ t, isSpace c = false

/-! ### Numbers -/

/-- A number with white space only for a text keeps what it held. -/
theorem readInt_blank {t : Str} (h : ∀ c ∈ t, isSpace c = true) (junk : Int32) :
    readInt junk t = junk := by
  have hdrop : t.dropWhile isSpace = [] := List.dropWhile_eq_nil_iff.mpr h
  rw [readInt, IStream.extractInt, IStream.extract, IStream.ofStr]
  simp only [Bool.or_self, Bool.false_eq_true, if_false, hdrop]
  exact Int32.ofInt_toInt junk

/-- Any other text decides the number, if only that it is zero. -/
theorem readInt_determined {t : Str} (h : ∃ c ∈ t, isSpace c = false) (a b : Int32) :
    readInt a t = readInt b t := by
  obtain ⟨c, hc, hspace⟩ := h
  have hdrop : t.dropWhile isSpace ≠ [] := by
    intro hnil
    rw [List.dropWhile_eq_nil_iff.mp hnil c hc] at hspace
    cases hspace
  obtain ⟨d, u, hdu⟩ := List.exists_cons_of_ne_nil hdrop
  rw [readInt, readInt, IStream.extractInt, IStream.extractInt, IStream.extract, IStream.extract,
    IStream.ofStr]
  simp only [Bool.or_self, Bool.false_eq_true, if_false, hdu]

/-! ### Names -/

theorem Config.keys_set (conf : Config) (key value : Str) :
    (conf.set key value).map Prod.fst = conf.map Prod.fst ∨
      key ∉ conf.map Prod.fst ∧ (conf.set key value).map Prod.fst = conf.map Prod.fst ++ [key] := by
  induction conf with
  | nil => exact .inr ⟨List.not_mem_nil, rfl⟩
  | cons e conf ih =>
    rw [set]
    by_cases hkey : e.1 = key
    · rw [if_pos hkey]
      exact .inl (by rw [List.map_cons, List.map_cons, hkey])
    · rw [if_neg hkey]
      rcases ih with h | ⟨hnew, h⟩
      · exact .inl (by rw [List.map_cons, List.map_cons, h])
      · refine .inr ⟨?_, by rw [List.map_cons, List.map_cons, h, List.cons_append]⟩
        rw [List.map_cons, List.mem_cons, not_or]
        exact ⟨Ne.symm hkey, hnew⟩

theorem Config.nodup_set {conf : Config} (h : (conf.map Prod.fst).Nodup) (key value : Str) :
    ((conf.set key value).map Prod.fst).Nodup := by
  rcases conf.keys_set key value with hkeys | ⟨hnew, hkeys⟩
  · rw [hkeys]
    exact h
  · rw [hkeys]
    exact List.nodup_append.mpr ⟨h, by simp, by rintro a ha b hb rfl; simp_all⟩

/-- A pass through the loop stores at most one pair. -/
theorem parseStep_conf (s : Parser) (prev : Option UInt8) (it : UInt8) :
    (parseStep s prev it).1.conf = s.conf ∨
      ∃ key value, (parseStep s prev it).1.conf = s.conf.set key value := by
  rw [parseStep]
  cases s.state with
  | endParse => exact .inr ⟨s.key, s.value, rfl⟩
  | init => left; simp only; split_ifs <;> rfl
  | parseValue => left; simp only; split_ifs <;> rfl
  | parseString => left; simp only; split_ifs <;> rfl
  | parseFundamental => left; simp only; split_ifs <;> rfl
  | parseIterable => left; simp only; split_ifs <;> rfl
  | parseStruct => left; simp only; split_ifs <;> rfl

/-- The names of a config are different. -/
theorem parse_nodup {json : Str} {conf : Config} (h : parse json = .ok conf) :
    (conf.map Prod.fst).Nodup := by
  have hstep : ∀ (s : Parser) (prev : Option UInt8) (it : UInt8), (s.conf.map Prod.fst).Nodup →
      ((parseStep s prev it).1.conf.map Prod.fst).Nodup := by
    intro s prev it hs
    rcases parseStep_conf s prev it with hconf | ⟨key, value, hconf⟩
    · rw [hconf]
      exact hs
    · rw [hconf]
      exact Config.nodup_set hs key value
  have hrun : ∀ (t : Str) (s : Parser) (prev : Option UInt8), (s.conf.map Prod.fst).Nodup →
      ((parseMachine.run s prev t).conf.map Prod.fst).Nodup := by
    intro t
    induction t with
    | nil => exact fun _ _ hs => hs
    | cons it t ih =>
      intro s prev hs
      apply ih
      show ((if (parseStep s prev it).2 then (parseStep (parseStep s prev it).1 prev it).1
        else (parseStep s prev it).1).conf.map Prod.fst).Nodup
      split
      · exact hstep _ _ _ (hstep _ _ _ hs)
      · exact hstep _ _ _ hs
  rw [parse] at h
  split at h
  · cases h
  · split at h
    · cases h
    · split at h
      · cases h
      · cases h
        exact hrun _ _ _ List.nodup_nil

/-! ### The loop over the members -/

/-- **What a loop that was not interrupted has done**: it has set the field of every entry, and left
the fields without an entry alone. -/
theorem configToObject_spec (setter : Str → Str → Option (Option Value)) (es : List (Str × Str)) :
    ∀ fields r : Fields, (∀ k s v, setter k s = some (some v) → k ∈ fields.names) →
      (es.map Prod.fst).Nodup → configToObject setter fields es = some (r, false) →
      (∀ e ∈ es, e.1 ≠ classNameKey → ∃ v, setter e.1 e.2 = some (some v) ∧ r.get e.1 = some v) ∧
        ∀ k, k ∉ es.map Prod.fst → r.get k = fields.get k := by
  induction es with
  | nil =>
    intro fields r _ _ h
    cases h
    exact ⟨List.forall_mem_nil _, fun _ _ => rfl⟩
  | cons e es ih =>
    intro fields r hset hnodup h
    rw [List.map_cons, List.nodup_cons] at hnodup
    rw [configToObject] at h
    by_cases hclass : e.1 = classNameKey
    · rw [if_pos hclass] at h
      obtain ⟨hentries, hkeep⟩ := ih fields r hset hnodup.2 h
      refine ⟨List.forall_mem_cons.mpr ⟨fun hne => absurd hclass hne, hentries⟩, fun k hk => ?_⟩
      exact hkeep k fun hmem => hk (List.mem_cons_of_mem _ hmem)
    · rw [if_neg hclass] at h
      cases hsetter : setter e.1 e.2 with
      | none => rw [hsetter] at h; cases h
      | some assigned =>
        cases assigned with
        | none => rw [hsetter] at h; cases h
        | some v =>
          rw [hsetter] at h
          have hmem := hset _ _ _ hsetter
          obtain ⟨hentries, hkeep⟩ := ih (fields.set e.1 v) r
            (fun k s w hw => by rw [Fields.names_set]; exact hset k s w hw) hnodup.2 h
          have hget : r.get e.1 = some v := by
            rw [hkeep e.1 hnodup.1, Fields.get_set _ _ _ _ hmem, if_pos rfl]
          refine ⟨List.forall_mem_cons.mpr ⟨fun _ => ⟨v, hsetter, hget⟩, hentries⟩, fun k hk => ?_⟩
          rw [List.map_cons, List.mem_cons, not_or] at hk
          rw [hkeep k hk.2, Fields.get_set _ _ _ _ hmem, if_neg hk.1]

/-! ### The judge's fields -/

/-- A text that `parse` stores is one for the setter of a string. -/
theorem readString_stored {t : Str} (h : Stored t) : ∃ s, readString t = some s := by
  obtain ⟨c, u, rfl⟩ := List.exists_cons_of_ne_nil h.ne_nil
  rw [readString]
  by_cases hquote : c = dquote
  · have hne : u ≠ [] := by
      rintro rfl
      exact h.ne_quote (by rw [hquote])
    simp only [if_pos hquote, if_neg hne]
    exact ⟨_, rfl⟩
  · simp only [if_neg hquote]
    exact ⟨_, if_neg (List.cons_ne_nil c u)⟩

/-- The setter of a number. -/
theorem assign_number (o : MapOrder) (junk m₀ t₀ : Int32) {key : Str} (t : Str)
    (hkey : key ∈ [memoryLimitKey, timeLimitKey]) :
    (JudgeEntiy.fresh m₀ t₀).fields.assign o junk key t = some (some (.int (readInt junk t))) := by
  rw [Fields.assign_eq]
  rcases List.mem_cons.mp hkey with rfl | hkey
  · rfl
  · rw [List.mem_singleton.mp hkey]
    rfl

theorem assign_mem (o : MapOrder) (junk m₀ t₀ : Int32) {key t : Str} {v : Value}
    (h : (JudgeEntiy.fresh m₀ t₀).fields.assign o junk key t = some (some v)) :
    key ∈ judgeKeys := by
  by_contra hkey
  have hnone : (JudgeEntiy.fresh m₀ t₀).fields.get key = none := by
    simp only [judgeKeys, List.mem_cons, List.not_mem_nil, or_false, not_or] at hkey
    simp only [JudgeEntiy.fields, Fields.get, if_neg hkey.1, if_neg hkey.2.1, if_neg hkey.2.2.1,
      if_neg hkey.2.2.2.1, if_neg hkey.2.2.2.2]
  rw [Fields.assign_eq, hnone] at h
  cases h

/-- What `loads` has done when it returns. -/
theorem loads_returned {o : MapOrder} {junk m₀ t₀ : Int32} {json : Str} {x : Value}
    (h : loads o junk (JudgeEntiy.fresh m₀ t₀).object json = .returned x) :
    ∃ conf r, parse json = .ok conf ∧ x = .object (ascii "judgeEntiy") r ∧
      configToObject (fun key s => (JudgeEntiy.fresh m₀ t₀).fields.assign o junk key s)
        (JudgeEntiy.fresh m₀ t₀).fields (o.entries conf) = some (r, false) := by
  rw [loads, JudgeEntiy.object, Value.assign] at h
  cases hparse : parse json with
  | error fault =>
    rw [hparse] at h
    cases fault <;> cases h
  | ok conf =>
    rw [hparse] at h
    simp only at h
    generalize hloop : configToObject (fun key s => (JudgeEntiy.fresh m₀ t₀).fields.assign o junk
      key s) (JudgeEntiy.fresh m₀ t₀).fields (o.entries conf) = loop at h
    cases loop with
    | none => cases h
    | some r =>
      obtain ⟨r, interrupted⟩ := r
      cases interrupted with
      | true => cases h
      | false =>
        cases h
        exact ⟨conf, r, rfl, rfl, hloop⟩

/-- The string that is assigned from a config, if one is. -/
def storedString (conf : Config) (key : Str) : Str := ((conf.lookup key).bind readString).getD []

/-- The number that is assigned from a config, if one is. -/
def storedInt (conf : Config) (key : Str) : Int32 := ((conf.lookup key).map (readInt 0)).getD 0

/-- The object that a complete body describes. -/
def storedJudge (conf : Config) : JudgeEntiy where
  language := storedString conf languageKey
  code := storedString conf codeKey
  pid := storedString conf pidKey
  memoryLimit := storedInt conf memoryLimitKey
  timeLimit := storedInt conf timeLimitKey

section
variable (o : MapOrder) (junk m₀ t₀ : Int32) {json : Str} {conf : Config}

/-- A complete body is read as the object it describes, whatever the memory holds. -/
theorem loads_complete (hparse : parse json = .ok conf)
    (hnames : ∀ e ∈ conf, e.1 = classNameKey ∨ e.1 ∈ judgeKeys)
    (hnumbers : ∀ key ∈ [memoryLimitKey, timeLimitKey],
      ∃ t, (key, t) ∈ conf ∧ ∃ c ∈ t, isSpace c = false) :
    loads o junk (JudgeEntiy.fresh m₀ t₀).object json = .returned (storedJudge conf).object := by
  have hnodup := parse_nodup hparse
  have hperm := o.entries_perm hnodup
  have hstring : ∀ {key t : Str}, (key, t) ∈ conf →
      readString t = some (storedString conf key) := by
    intro key t ht
    obtain ⟨s, hs⟩ := readString_stored (parse_stored hparse _ ht)
    rw [storedString, (lookup_eq_some_iff hnodup key t).mpr ht, Option.bind_some, hs]
    rfl
  have hint : ∀ {key t : Str}, key ∈ [memoryLimitKey, timeLimitKey] → (key, t) ∈ conf →
      readInt junk t = storedInt conf key := by
    intro key t hkey ht
    obtain ⟨t', ht', hspace⟩ := hnumbers key hkey
    have hlookup := (lookup_eq_some_iff hnodup key t).mpr ht
    rw [(lookup_eq_some_iff hnodup key t').mpr ht'] at hlookup
    rw [storedInt, (lookup_eq_some_iff hnodup key t).mpr ht, ← Option.some.inj hlookup]
    exact readInt_determined hspace junk 0
  have hloop := configToObject_eq
    (fun key s => (JudgeEntiy.fresh m₀ t₀).fields.assign o junk key s) (storedJudge conf).fields
    judgeKeys_nodup classNameKey_not_mem (o.entries conf) (JudgeEntiy.fresh m₀ t₀).fields rfl ?_ ?_
  · rw [loads, JudgeEntiy.object, Value.assign, hparse]
    simp only
    rw [hloop]
    rfl
  · intro e he hclass
    obtain ⟨key, t⟩ := e
    have hmem := hperm.mem_iff.mp he
    have hkey : key ∈ judgeKeys := (hnames _ hmem).resolve_left hclass
    refine ⟨hkey, ?_⟩
    simp only [judgeKeys, List.mem_cons, List.not_mem_nil, or_false] at hkey
    rw [Fields.assign_eq]
    rcases hkey with rfl | rfl | rfl | rfl | rfl
    · exact congrArg some (Value.assign_string o junk (hstring hmem))
    · exact congrArg some (Value.assign_string o junk (hstring hmem))
    · exact congrArg some (Value.assign_int o (hint (by simp) hmem))
    · exact congrArg some (Value.assign_int o (hint (by simp) hmem))
    · exact congrArg some (Value.assign_string o junk (hstring hmem))
  · intro key hkey hnot
    have hnone : ∀ t, (key, t) ∉ conf := fun t ht =>
      hnot (List.mem_map.mpr ⟨(key, t), hperm.mem_iff.mpr ht, rfl⟩)
    have hempty : storedString conf key = [] := by
      have hlookup : conf.lookup key = none := by
        cases h : conf.lookup key with
        | none => rfl
        | some t => exact absurd ((lookup_eq_some_iff hnodup key t).mp h) (hnone t)
      rw [storedString, hlookup]
      rfl
    simp only [JudgeEntiy.fields_names, judgeKeys, List.mem_cons, List.not_mem_nil, or_false]
      at hkey
    rcases hkey with rfl | rfl | rfl | rfl | rfl
    · exact congrArg (fun s => some (Value.string s)) hempty.symm
    · exact congrArg (fun s => some (Value.string s)) hempty.symm
    · obtain ⟨t, ht, -⟩ := hnumbers memoryLimitKey (by simp)
      exact absurd ht (hnone t)
    · obtain ⟨t, ht, -⟩ := hnumbers timeLimitKey (by simp)
      exact absurd ht (hnone t)
    · exact congrArg (fun s => some (Value.string s)) hempty.symm

end

/-- Two memories that give the same object: every number has its own text. -/
theorem number_of_same (o : MapOrder) {conf : Config} (hnodup : (conf.map Prod.fst).Nodup)
    {r : Fields} (hloop : ∀ j : Int32, configToObject
      (fun key s => (JudgeEntiy.fresh j j).fields.assign o j key s)
      (JudgeEntiy.fresh j j).fields (o.entries conf) = some (r, false)) {key : Str}
    (hkey : key ∈ [memoryLimitKey, timeLimitKey]) :
    ∃ t, (key, t) ∈ conf ∧ ∃ c ∈ t, isSpace c = false := by
  have hperm := o.entries_perm hnodup
  have hspec := fun j => configToObject_spec _ _ _ r (fun k s v h => assign_mem o j j j h)
    ((hperm.map Prod.fst).nodup_iff.mpr hnodup) (hloop j)
  have hclass : key ≠ classNameKey := by
    rintro rfl
    exact absurd hkey (by decide)
  by_cases hex : ∃ t, (key, t) ∈ conf
  · obtain ⟨t, ht⟩ := hex
    refine ⟨t, ht, ?_⟩
    by_contra hblank
    have hall : ∀ c ∈ t, isSpace c = true := by
      intro c hc
      by_contra hspace
      exact hblank ⟨c, hc, Bool.eq_false_iff.mpr hspace⟩
    have hvalue : ∀ j : Int32, r.get key = some (.int j) := by
      intro j
      obtain ⟨v, hv, hget⟩ := (hspec j).1 (key, t) (hperm.mem_iff.mpr ht) hclass
      rw [assign_number o j j j t hkey, readInt_blank hall] at hv
      rw [hget, ← Option.some.inj (Option.some.inj hv)]
    have hsame := (hvalue 0).symm.trans (hvalue 1)
    exact absurd (Value.int.inj (Option.some.inj hsame)) (by decide)
  · have hnot : key ∉ (o.entries conf).map Prod.fst := by
      intro hmem
      obtain ⟨e, he, rfl⟩ := List.mem_map.mp hmem
      exact hex ⟨e.2, hperm.mem_iff.mp he⟩
    have hvalue : ∀ j : Int32, r.get key = some (.int j) := by
      intro j
      rw [(hspec j).2 key hnot]
      rcases List.mem_cons.mp hkey with rfl | hkey
      · rfl
      · rw [List.mem_singleton.mp hkey]
        rfl
    have hsame := (hvalue 0).symm.trans (hvalue 1)
    exact absurd (Value.int.inj (Option.some.inj hsame)) (by decide)

/-- **A body has a defined outcome exactly when it is complete.**  For every text and every order of
the map, `loads<judgeEntiy>` returns one object whatever the memory held, if and only if the text
is in braces, names no field that does not exist, and has a text for each of the two numbers. -/
theorem determined_iff (o : MapOrder) (json : Str) : Determined o json ↔ CompleteBody json := by
  constructor
  · intro ⟨x, hx⟩
    obtain ⟨conf, r, hparse, hobject, -⟩ := loads_returned (hx 0 0 0)
    have hnodup := parse_nodup hparse
    have hperm := o.entries_perm hnodup
    have hloop : ∀ j : Int32, configToObject
        (fun key s => (JudgeEntiy.fresh j j).fields.assign o j key s)
        (JudgeEntiy.fresh j j).fields (o.entries conf) = some (r, false) := by
      intro j
      obtain ⟨conf', r', hparse', hobject', hloop⟩ := loads_returned (hx j j j)
      rw [hparse] at hparse'
      cases hparse'
      rw [hobject] at hobject'
      cases hobject'
      exact hloop
    refine ⟨conf, hparse, fun e he => ?_, fun key hkey => number_of_same o hnodup hloop hkey⟩
    by_cases hclass : e.1 = classNameKey
    · exact .inl hclass
    · obtain ⟨hentries, -⟩ := configToObject_spec _ _ _ r (fun k s v h => assign_mem o 0 0 0 h)
        ((hperm.map Prod.fst).nodup_iff.mpr hnodup) (hloop 0)
      obtain ⟨v, hv, -⟩ := hentries e (hperm.mem_iff.mpr he) hclass
      exact .inr (assign_mem o 0 0 0 hv)
  · intro ⟨conf, hparse, hnames, hnumbers⟩
    exact ⟨_, fun junk m₀ t₀ => loads_complete o junk m₀ t₀ hparse hnames hnumbers⟩

/-- **Bodies without a defined outcome**: an empty one, one that is no object, one with another
name, and an object without members, which comes back with the numbers that were in the memory. -/
theorem undetermined_bodies :
    loads keyOrder 0 (JudgeEntiy.fresh 0 0).object [] = .undefined ∧
    loads keyOrder 0 (JudgeEntiy.fresh 0 0).object (ascii "[]") = .noReturn ∧
    loads keyOrder 0 (JudgeEntiy.fresh 0 0).object (ascii "\x7b\"user\":1\x7d") = .noReturn ∧
    (∀ m t, loads keyOrder 0 (JudgeEntiy.fresh m t).object (ascii "\x7b\x7d") =
      .returned (JudgeEntiy.fresh m t).object) ∧
    ¬ Determined keyOrder [] ∧ ¬ Determined keyOrder (ascii "\x7b\x7d") := by
  have hempty : ∀ m t, loads keyOrder 0 (JudgeEntiy.fresh m t).object (ascii "\x7b\x7d") =
      .returned (JudgeEntiy.fresh m t).object := fun _ _ => rfl
  refine ⟨rfl, rfl, rfl, hempty, fun ⟨x, hx⟩ => ?_, fun ⟨x, hx⟩ => ?_⟩
  · have h := hx 0 0 0
    have hundefined : loads keyOrder 0 (JudgeEntiy.fresh 0 0).object [] = .undefined := rfl
    rw [hundefined] at h
    cases h
  · have hsame := (hempty 0 0).symm.trans ((hx 0 0 0).trans ((hx 0 1 1).symm.trans (hempty 1 1)))
    have heq := JudgeEntiy.object_injective (Loaded.returned.inj hsame)
    exact absurd (congrArg JudgeEntiy.memoryLimit heq) (by decide)

end Rojcpp.Json
