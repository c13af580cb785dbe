import Rojcpp.Json.Layout
import Rojcpp.Json.Reflect

/-!
# A submission's JSON text

The body of a submission is read by `loads<judgeEntiy>`.  The theorem says for which submissions
it gives back what a client has encoded, with the five members in any order, any white space
between the tokens and the strings escaped in the standard way.

The machine of `parse` finds the end of a string by looking one character back, and the escapes
are undone later by another function.  The two agree on every string that does not end with a
backslash: there the closing quote stands behind the second backslash of an escaped one.
-/

namespace Rojcpp.Json

open Rojcpp.Lib

/-! ### Escaping -/

/-- The standard escapes of one character. -/
def escapeChar (c : UInt8) : Str :=
  if c = dquote then [bslash, dquote]
  else if c = bslash then [bslash, bslash]
  else if c = 10 then [bslash, 'n']
  else if c = 13 then [bslash, 'r']
  else if c = 9 then [bslash, 't']
  else [c]

/-- A string's text between its quotes. -/
def escape (s : Str) : Str := s.flatMap escapeChar

theorem escape_cons (c : UInt8) (s : Str) : escape (c :: s) = escapeChar c ++ escape s :=
  List.flatMap_cons

/-- An escape is undone by `unescape_string`. -/
theorem unescape_escapeChar (c : UInt8) (t : Str) :
    unescapeLoop false (escapeChar c ++ t) = c :: unescapeLoop false t := by
  rw [escapeChar]
  by_cases h1 : c = dquote
  · rw [if_pos h1, h1]; rfl
  rw [if_neg h1]
  by_cases h2 : c = bslash
  · rw [if_pos h2, h2]; rfl
  rw [if_neg h2]
  by_cases h3 : c = 10
  · rw [if_pos h3, h3]; rfl
  rw [if_neg h3]
  by_cases h4 : c = 13
  · rw [if_pos h4, h4]; rfl
  rw [if_neg h4]
  by_cases h5 : c = 9
  · rw [if_pos h5, h5]; rfl
  rw [if_neg h5, List.singleton_append, unescapeLoop, if_neg (by decide), if_neg h2]

theorem unescape_escape (s t : Str) :
    unescapeLoop false (escape s ++ t) = s ++ unescapeLoop false t := by
  induction s with
  | nil => rfl
  | cons c s ih => rw [escape_cons, List.append_assoc, unescape_escapeChar, ih, List.cons_append]

/-- Escaped text holds no quote without a backslash in front of it. -/
theorem guarded_escapeChar (c prev : UInt8) : Guarded prev (escapeChar c) := by
  have hslash : bslash ≠ dquote := by decide
  rw [escapeChar]
  by_cases h1 : c = dquote
  · rw [if_pos h1]
    exact ⟨fun h => absurd h hslash, fun _ => rfl, trivial⟩
  rw [if_neg h1]
  split
  · exact ⟨fun h => absurd h hslash, fun h => absurd h hslash, trivial⟩
  split
  · exact ⟨fun h => absurd h hslash, fun h => absurd h (by decide), trivial⟩
  split
  · exact ⟨fun h => absurd h hslash, fun h => absurd h (by decide), trivial⟩
  split
  · exact ⟨fun h => absurd h hslash, fun h => absurd h (by decide), trivial⟩
  · exact ⟨fun h => absurd h h1, trivial⟩

theorem guarded_escape (s : Str) : ∀ prev, Guarded prev (escape s) := by
  induction s with
  | nil => intro prev; trivial
  | cons c s ih =>
    intro prev
    rw [escape_cons]
    exact (guarded_append _ _ _).mpr ⟨guarded_escapeChar c prev, ih _⟩

theorem getLast_escapeChar (c : UInt8) :
    (escapeChar c).getLast? = some bslash ↔ c = bslash := by
  rw [escapeChar]
  by_cases h1 : c = dquote
  · rw [if_pos h1, h1]; decide
  rw [if_neg h1]
  by_cases h2 : c = bslash
  · rw [if_pos h2, h2]; decide
  rw [if_neg h2]
  refine iff_of_false ?_ h2
  split
  · decide
  split
  · decide
  split
  · decide
  · simpa using h2

/-- An escaped text ends with a backslash exactly when the string does. -/
theorem getLast_escape (s : Str) :
    (escape s).getLast? = some bslash ↔ s.getLast? = some bslash := by
  induction s using List.reverseRecOn with
  | nil => exact Iff.rfl
  | append_singleton s c _ =>
    have hne : escapeChar c ≠ [] := by rw [escapeChar]; split_ifs <;> simp
    rw [escape, List.flatMap_append, List.getLast?_append, List.flatMap_singleton,
      List.getLast?_concat, Option.some.injEq, ← getLast_escapeChar c]
    rw [List.getLast?_eq_some_getLast hne]
    rfl

/-! ### The struct and its texts -/

/-- `struct judgeEntiy`. -/
structure JudgeEntiy where
  language : Str
  code : Str
  pid : Str
  memoryLimit : Int32
  timeLimit : Int32
  deriving DecidableEq, Repr

/-- The names of its fields. -/
def languageKey : Str := ascii "language"
@[inherit_doc languageKey] def codeKey : Str := ascii "code"
@[inherit_doc languageKey] def memoryLimitKey : Str := ascii "memoryLimit"
@[inherit_doc languageKey] def timeLimitKey : Str := ascii "timeLimit"
@[inherit_doc languageKey] def pidKey : Str := ascii "pid"

/-- The fields in the order of `get_config`. -/
def JudgeEntiy.fields (e : JudgeEntiy) : Fields :=
  .cons languageKey (.string e.language)
    (.cons codeKey (.string e.code)
      (.cons memoryLimitKey (.int e.memoryLimit)
        (.cons timeLimitKey (.int e.timeLimit)
          (.cons pidKey (.string e.pid) .nil))))

/-- The names of the five fields. -/
def judgeKeys : List Str := [languageKey, codeKey, memoryLimitKey, timeLimitKey, pidKey]

theorem judgeKeys_nodup : judgeKeys.Nodup := by decide

theorem classNameKey_not_mem : classNameKey ∉ judgeKeys := by decide

@[simp] theorem JudgeEntiy.fields_names (e : JudgeEntiy) : e.fields.names = judgeKeys := rfl

/-- The object as the library sees it. -/
def JudgeEntiy.object (e : JudgeEntiy) : Value := .object (ascii "judgeEntiy") e.fields

/-- The names and the JSON texts of the five values. -/
def JudgeEntiy.encoded (e : JudgeEntiy) : List (Str × Str) :=
  [(languageKey, quoted (escape e.language)), (codeKey, quoted (escape e.code)),
    (memoryLimitKey, toStringInt e.memoryLimit), (timeLimitKey, toStringInt e.timeLimit),
    (pidKey, quoted (escape e.pid))]

/-- A JSON text of a submission: its members in some order, with white space between the tokens
and around the object. -/
structure JsonText (e : JudgeEntiy) where
  first : Member
  rest : List Member
  pre : Blanks
  post : Blanks
  perm : ((first :: rest).map fun m => (m.name.1, m.text)).Perm e.encoded

/-- The text itself. -/
def JsonText.text {e : JudgeEntiy} (j : JsonText e) : Str :=
  j.pre.1 ++ (objectText j.first j.rest ++ j.post.1)

/-- `judgeEntiy obj;`: empty strings, and numbers that hold anything. -/
def JudgeEntiy.fresh (memoryLimit timeLimit : Int32) : JudgeEntiy :=
  ⟨[], [], [], memoryLimit, timeLimit⟩

section
variable {e : JudgeEntiy} (j : JsonText e)

theorem JsonText.mem_iff (name text : Str) :
    (∃ m ∈ j.first :: j.rest, m.name.1 = name ∧ m.text = text) ↔ (name, text) ∈ e.encoded := by
  rw [← j.perm.mem_iff, List.mem_map]
  constructor
  · intro ⟨m, hm, hname, htext⟩
    exact ⟨m, hm, by rw [hname, htext]⟩
  · intro ⟨m, hm, heq⟩
    cases heq
    exact ⟨m, hm, rfl, rfl⟩

theorem JsonText.names_nodup : ((j.first :: j.rest).map fun m => m.name.1).Nodup := by
  have hkeys := j.perm.map Prod.fst
  rw [List.map_map] at hkeys
  exact hkeys.nodup_iff.mpr judgeKeys_nodup

theorem JsonText.readable : ∀ m ∈ j.first :: j.rest, Readable m.text := by
  intro m hm
  have hmem := (j.mem_iff m.name.1 m.text).mp ⟨m, hm, rfl, rfl⟩
  simp only [JudgeEntiy.encoded, List.mem_cons, Prod.mk.injEq, List.not_mem_nil, or_false] at hmem
  rcases hmem with ⟨-, h⟩ | ⟨-, h⟩ | ⟨-, h⟩ | ⟨-, h⟩ | ⟨-, h⟩ <;> rw [h]
  · exact readable_string (guarded_escape _ _)
  · exact readable_string (guarded_escape _ _)
  · exact readable_int _
  · exact readable_int _
  · exact readable_string (guarded_escape _ _)

/-- What `parse` finds in the text. -/
theorem JsonText.parse_eq : parse j.text = .ok (stored (j.first :: j.rest)) :=
  parse_objectText j.pre j.post j.first j.rest j.readable j.names_nodup

/-- The name of a member determines its text. -/
theorem JsonText.text_eq {m : Member} (hm : m ∈ j.first :: j.rest) {name text : Str}
    (hname : m.name.1 = name) (hmem : (name, text) ∈ e.encoded) : m.text = text := by
  have hself := (j.mem_iff name m.text).mp ⟨m, hm, hname, rfl⟩
  have hkeys : (e.encoded.map Prod.fst).Nodup := judgeKeys_nodup
  have h1 := (lookup_eq_some_iff hkeys name m.text).mpr hself
  have h2 := (lookup_eq_some_iff hkeys name text).mpr hmem
  rw [h1] at h2
  exact Option.some.inj h2

/-- A number is stored under its name, and read back. -/
theorem JsonText.int_loaded {name : Str} {n : Int32} (hmem : (name, toStringInt n) ∈ e.encoded)
    (junk : Int32) : (∃ t, (name, t) ∈ stored (j.first :: j.rest)) ∧
      ∀ t, (name, t) ∈ stored (j.first :: j.rest) → readInt junk t = n := by
  constructor
  · obtain ⟨m, hm, hname, htext⟩ := (j.mem_iff name (toStringInt n)).mpr hmem
    have hin := mem_stored _ m hm (by rw [htext, hangs_int])
    exact ⟨m.text, by rw [hname] at hin; exact hin⟩
  · intro t ht
    obtain ⟨m, hm, hname, hstored⟩ := stored_mem _ _ ht
    rw [j.text_eq hm hname hmem, hangs_int, if_neg Bool.false_ne_true] at hstored
    rw [show t = toStringInt n from hstored, readInt_toStringInt]

/-- **What becomes of a string**: it is read back exactly when it does not end with a backslash.
Otherwise it comes back longer, or its field is never assigned. -/
theorem JsonText.string_loaded {name s : Str} (hmem : (name, quoted (escape s)) ∈ e.encoded) :
    ∃ s', (∀ t, (name, t) ∈ stored (j.first :: j.rest) → readString t = some s') ∧
      ((∀ t, (name, t) ∉ stored (j.first :: j.rest)) → s' = []) ∧
      (s' = s ↔ s.getLast? ≠ some bslash) := by
  have hhang : hangs (quoted (escape s)) = true ↔ s.getLast? = some bslash := by
    rw [hangs_quoted, beq_iff_eq, getLast_escape]
  by_cases hlast : s.getLast? = some bslash
  · by_cases hex : ∃ t, (name, t) ∈ stored (j.first :: j.rest)
    · obtain ⟨t, ht⟩ := hex
      obtain ⟨m, hm, hname, hstored⟩ := stored_mem _ _ ht
      rw [j.text_eq hm hname hmem, if_pos (hhang.mpr hlast)] at hstored
      obtain ⟨sep, hsep, htext⟩ := hstored
      have hquoted : t = quoted (escape s ++ dquote :: sep) := by
        rw [show t = _ from htext, quoted, quoted]
        simp only [List.append_assoc, List.cons_append, List.nil_append]
      have hslash : bslash ∉ dquote :: sep := by
        rw [List.mem_cons, not_or]
        exact ⟨by decide, hsep⟩
      have hkeys := j.names_nodup.sublist (stored_names _)
      refine ⟨s ++ dquote :: sep, fun t' ht' => ?_, fun hnone => absurd ht (hnone t), ?_⟩
      · have h1 := (lookup_eq_some_iff hkeys name t).mpr ht
        rw [(lookup_eq_some_iff hkeys name t').mpr ht'] at h1
        rw [Option.some.inj h1, hquoted, readString_quoted, unescapeString, unescape_escape,
          unescape_of_no_bslash hslash]
      · refine iff_of_false (fun h => ?_) (not_not_intro hlast)
        have hlen := congrArg List.length h
        rw [List.length_append, List.length_cons] at hlen
        omega
    · refine ⟨[], fun t ht => absurd ⟨t, ht⟩ hex, fun _ => rfl, ?_⟩
      refine iff_of_false (fun h => ?_) (not_not_intro hlast)
      rw [← h] at hlast
      cases hlast
  · have hhang' : hangs (quoted (escape s)) = false := by
      rw [Bool.eq_false_iff, ne_eq, hhang]
      exact hlast
    refine ⟨s, fun t ht => ?_, fun hnone => ?_, iff_of_true rfl hlast⟩
    · obtain ⟨m, hm, hname, hstored⟩ := stored_mem _ _ ht
      rw [j.text_eq hm hname hmem, hhang', if_neg Bool.false_ne_true] at hstored
      have hundo := unescape_escape s []
      rw [List.append_nil, unescapeLoop, List.append_nil] at hundo
      rw [show t = quoted (escape s) from hstored, readString_quoted, unescapeString, hundo]
    · obtain ⟨m, hm, hname, htext⟩ := (j.mem_iff name (quoted (escape s))).mpr hmem
      have hin := mem_stored _ m hm (by rw [htext, hhang'])
      rw [hname] at hin
      exact absurd hin (hnone _)

/-- **What `loads` makes of the text**: an object whose numbers are right, and whose strings are
right exactly when they do not end with a backslash. -/
theorem JsonText.loads_eq (o : MapOrder) (junk m₀ t₀ : Int32) :
    ∃ e' : JudgeEntiy, loads o junk (JudgeEntiy.fresh m₀ t₀).object j.text = .returned e'.object ∧
      e'.memoryLimit = e.memoryLimit ∧ e'.timeLimit = e.timeLimit ∧
      (e'.language = e.language ↔ e.language.getLast? ≠ some bslash) ∧
      (e'.code = e.code ↔ e.code.getLast? ≠ some bslash) ∧
      (e'.pid = e.pid ↔ e.pid.getLast? ≠ some bslash) := by
  have hlanguage : (languageKey, quoted (escape e.language)) ∈ e.encoded := by
    simp [JudgeEntiy.encoded]
  have hcode : (codeKey, quoted (escape e.code)) ∈ e.encoded := by simp [JudgeEntiy.encoded]
  have hpid : (pidKey, quoted (escape e.pid)) ∈ e.encoded := by simp [JudgeEntiy.encoded]
  have hmemory : (memoryLimitKey, toStringInt e.memoryLimit) ∈ e.encoded := by
    simp [JudgeEntiy.encoded]
  have htime : (timeLimitKey, toStringInt e.timeLimit) ∈ e.encoded := by simp [JudgeEntiy.encoded]
  obtain ⟨language, hl, hl0, hliff⟩ := j.string_loaded hlanguage
  obtain ⟨code, hc, hc0, hciff⟩ := j.string_loaded hcode
  obtain ⟨pid, hp, hp0, hpiff⟩ := j.string_loaded hpid
  obtain ⟨⟨tm, hm0⟩, hm⟩ := j.int_loaded hmemory junk
  obtain ⟨⟨tt, ht0⟩, ht⟩ := j.int_loaded htime junk
  refine ⟨⟨language, code, pid, e.memoryLimit, e.timeLimit⟩, ?_, rfl, rfl, hliff, hciff, hpiff⟩
  have hkeys := j.names_nodup.sublist (stored_names _)
  have hperm := o.entries_perm hkeys
  have hloop := configToObject_eq
    (fun key s => (JudgeEntiy.fresh m₀ t₀).fields.assign o junk key s)
    (JudgeEntiy.fields ⟨language, code, pid, e.memoryLimit, e.timeLimit⟩)
    judgeKeys_nodup classNameKey_not_mem (o.entries (stored (j.first :: j.rest)))
    (JudgeEntiy.fresh m₀ t₀).fields rfl ?_ ?_
  · rw [loads, JudgeEntiy.object, Value.assign, j.parse_eq]
    simp only
    rw [hloop]
    rfl
  · intro en hen _
    obtain ⟨name, t⟩ := en
    have hst := hperm.mem_iff.mp hen
    have hname : name ∈ judgeKeys := by
      obtain ⟨m, hm, rfl, -⟩ := stored_mem _ _ hst
      show m.name.1 ∈ e.encoded.map Prod.fst
      exact List.mem_map.mpr ⟨_, (j.mem_iff _ m.text).mp ⟨m, hm, rfl, rfl⟩, rfl⟩
    refine ⟨hname, ?_⟩
    simp only [judgeKeys, List.mem_cons, List.not_mem_nil, or_false] at hname
    rw [Fields.assign_eq]
    rcases hname with rfl | rfl | rfl | rfl | rfl
    · exact congrArg some (Value.assign_string o junk (hl t hst))
    · exact congrArg some (Value.assign_string o junk (hc t hst))
    · exact congrArg some (Value.assign_int o (hm t hst))
    · exact congrArg some (Value.assign_int o (ht t hst))
    · exact congrArg some (Value.assign_string o junk (hp t hst))
  · intro name hname hnot
    have hnone : ∀ t, (name, t) ∉ stored (j.first :: j.rest) := fun t hin =>
      hnot (List.mem_map.mpr ⟨(name, t), hperm.mem_iff.mpr hin, rfl⟩)
    simp only [JudgeEntiy.fields_names, judgeKeys, List.mem_cons, List.not_mem_nil, or_false]
      at hname
    rcases hname with rfl | rfl | rfl | rfl | rfl
    · rw [hl0 hnone]; rfl
    · rw [hc0 hnone]; rfl
    · exact absurd hm0 (hnone tm)
    · exact absurd ht0 (hnone tt)
    · rw [hp0 hnone]; rfl

end

theorem JudgeEntiy.object_injective {a b : JudgeEntiy} (h : a.object = b.object) : a = b := by
  cases a
  cases b
  simp only [object, fields, Value.object.injEq, Fields.cons.injEq, Value.string.injEq,
    Value.int.injEq, true_and, and_true] at h
  simp only [mk.injEq]
  exact ⟨h.1, h.2.1, h.2.2.2.2, h.2.2.1, h.2.2.2.1⟩

/-- **`loads` gives back the submission exactly when no string of it ends with a backslash**, for
every order of the members, all white space, every order of the map and whatever the object's
numbers hold before. -/
theorem loads_judge_iff {e : JudgeEntiy} (j : JsonText e) (o : MapOrder) (junk m₀ t₀ : Int32) :
    loads o junk (JudgeEntiy.fresh m₀ t₀).object j.text = .returned e.object ↔
      ∀ s ∈ [e.language, e.code, e.pid], s.getLast? ≠ some bslash := by
  obtain ⟨e', hloads, hmemory, htime, hlanguage, hcode, hpid⟩ := j.loads_eq o junk m₀ t₀
  rw [hloads]
  simp only [List.mem_cons, List.not_mem_nil, or_false, forall_eq_or_imp, forall_eq]
  rw [← hlanguage, ← hcode, ← hpid]
  constructor
  · intro h
    obtain rfl := JudgeEntiy.object_injective (Loaded.returned.inj h)
    exact ⟨rfl, rfl, rfl⟩
  · intro ⟨h1, h2, h3⟩
    have heq : e' = e := by
      cases e'
      cases e
      simp only [JudgeEntiy.mk.injEq]
      exact ⟨h1, h2, h3, hmemory, htime⟩
    rw [heq]

/-- A submission whose code ends with a backslash. -/
def backslashEntiy : JudgeEntiy := ⟨ascii "cpp", ascii "x\\", ascii "1000", 128, 1⟩

/-- Its text, with the members in the order of the struct. -/
def backslashText : JsonText backslashEntiy where
  first := plainMember languageKey (quoted (ascii "cpp")) (List.all_eq_true.mp rfl)
  rest := [plainMember codeKey (quoted (ascii "x\\\\")) (List.all_eq_true.mp rfl),
    plainMember memoryLimitKey (ascii "128") (List.all_eq_true.mp rfl),
    plainMember timeLimitKey (ascii "1") (List.all_eq_true.mp rfl),
    plainMember pidKey (quoted (ascii "1000")) (List.all_eq_true.mp rfl)]
  pre := noBlanks
  post := noBlanks
  perm := by
    have heq : backslashEntiy.encoded = [(languageKey, quoted (ascii "cpp")),
        (codeKey, quoted (ascii "x\\\\")), (memoryLimitKey, ascii "128"), (timeLimitKey, ascii "1"),
        (pidKey, quoted (ascii "1000"))] := by decide +kernel
    rw [heq]
    exact List.Perm.refl _

/-- **A code that ends with a backslash does not come back**: its field takes in the quote and the
comma behind it. -/
theorem loads_judge_backslash :
    loads keyOrder 0 (JudgeEntiy.fresh 0 0).object backslashText.text ≠
      .returned backslashEntiy.object := by
  obtain ⟨e', hloads, -, -, -, hcode, -⟩ := backslashText.loads_eq keyOrder 0 0 0
  intro h
  rw [hloads] at h
  have heq := JudgeEntiy.object_injective (Loaded.returned.inj h)
  exact absurd (hcode.mp (by rw [heq])) (by decide)

end Rojcpp.Json
