import Rojcpp.Json.Grammar

/-!
# Where `parse` ends a value

The machine follows a string to the next quote that is not behind a backslash, and an array or an
object to the bracket or brace that closes it, counting those inside strings as well.  `Bounded`
says of a text that it ends where the machine ends it.

Two results meet in the theorem.  On the one side a bounded value is delimited, so that an object
of bounded values is read as it should be.  On the other side `parse` stores bounded texts only,
whatever it is given, so that a value which is not bounded cannot come out of it.
-/

namespace Rojcpp.Json

open Rojcpp.Lib

/-- Of the symbols that open and close, wherever they stand, the last one closes the first one, and
none in front of it does. -/
def Enclosed (op cl : UInt8) (v : Str) : Prop :=
  ∃ body, v = op :: body ++ [cl] ∧ nestDepth op cl 1 body = some 1

/-- A string does not end with a backslash in front of its closing quote; the brackets of an array
and the braces of an object, those in strings included, close at its end and not before. -/
structure Bounded (v : Str) : Prop where
  string : v.head? = some dquote → hangs v = false
  array : v.head? = some lbracket → Enclosed lbracket rbracket v
  object : v.head? = some lbrace → Enclosed lbrace rbrace v

/-! ### Bounded values are delimited -/

/-- Inside a list, `n` brackets deep. -/
def nestIterable (key : Str) (conf : Config) (value : Str) (n : ℕ) : Parser :=
  ⟨.parseIterable, key, value, 0, n, conf⟩

/-- Arrays whose brackets close only at the end. -/
theorem delimited_array {body : Str} (h : nestDepth lbracket rbracket 1 body = some 1) :
    Delimited (lbracket :: body ++ [rbracket]) := by
  apply delimited_of_closed
  intro key conf prev t
  have hblind : ∀ v n, parseMachine.Blind (nestIterable key conf v n) := fun v n =>
    blind_of_state (by simp [nestIterable])
  have hfirst : parseMachine.look (atValue key conf) prev lbracket =
      nestIterable key conf [lbracket] 1 := parseMachine.look_once rfl
  have hopen : ∀ v n, parseMachine.look (nestIterable key conf v n) none lbracket =
      nestIterable key conf (v ++ [lbracket]) (n + 1) := by
    intro v n
    have hlayer : (n : ℤ) + 1 ≠ 0 := by omega
    apply parseMachine.look_once
    simp [parseMachine, parseStep, nestIterable, hlayer, show lbracket ≠ rbracket by decide]
  have hclose : ∀ v n, 1 < n → parseMachine.look (nestIterable key conf v n) none rbracket =
      nestIterable key conf (v ++ [rbracket]) (n - 1) := by
    intro v n hn
    have hlayer : (n : ℤ) + -1 = ((n - 1 : ℕ) : ℤ) := by omega
    have hpos : n - 1 ≠ 0 := by omega
    apply parseMachine.look_once
    simp [parseMachine, parseStep, nestIterable, hlayer, hpos]
  have hother : ∀ v n, ∀ a, a ≠ lbracket → a ≠ rbracket →
      parseMachine.look (nestIterable key conf v n) none a =
        nestIterable key conf (v ++ [a]) n := by
    intro v n a hop hcl
    apply parseMachine.look_once
    simp [parseMachine, parseStep, nestIterable, hop, hcl]
  have hend : ∀ v, parseMachine.look (nestIterable key conf v 1) none rbracket =
      atKey [] (conf.set key (v ++ [rbracket])) := fun v => look_end rfl
  rw [List.append_assoc, List.cons_append, parseMachine.run_step hfirst (hblind _ _),
    List.singleton_append,
    parseMachine.run_nest _ _ (nestIterable key conf) hblind hopen hclose hother body _ _ 1 1 none
      (by omega) h,
    parseMachine.run_step (hend _) (blind_atKey _ _)]
  rfl

theorem scalar_delimited {v : Str} (h : ScalarText v) : Delimited v := by
  obtain ⟨hne, hchars⟩ := h
  obtain ⟨c, u, rfl⟩ := List.exists_cons_of_ne_nil hne
  have hother : ∀ {d e : UInt8}, isScalarChar d = true → isScalarChar e = false → d ≠ e := by
    rintro d e hd he rfl
    rw [hd] at he
    cases he
  have hblank : ∀ d, isScalarChar d = true → isBlankChar d = false := by
    intro d hd
    simp only [isBlankChar, Bool.or_eq_false_iff, beq_eq_false_iff_ne]
    exact ⟨⟨⟨hother hd rfl, hother hd rfl⟩, hother hd rfl⟩, hother hd rfl⟩
  apply delimited_fundamental
  · have hc := hchars c List.mem_cons_self
    exact ⟨hblank c hc, hother hc rfl, hother hc rfl, hother hc rfl⟩
  · intro d hd
    have hd := hchars d (List.mem_cons_of_mem c hd)
    exact ⟨hother hd rfl, hother hd rfl, hother hd rfl, hblank d hd⟩

theorem hangs_of_last {v : Str} {c : UInt8} (h : v.getLast? = some c) (hc : c ≠ dquote) :
    hangs v = false := by
  rw [hangs, h]
  simp [hc]

/-- A bounded value hangs not, and it is delimited. -/
theorem ValueText.readable {v : Str} (h : ValueText v) (hb : Bounded v) :
    hangs v = false ∧ Readable v := by
  have hreadable : hangs v = false → Delimited v → hangs v = false ∧ Readable v := by
    intro hhang hdel
    refine ⟨hhang, ?_⟩
    rw [Readable, hhang]
    exact hdel
  rcases h.shape with ⟨body, rfl, hbody⟩ | hscalar | ⟨s, rfl⟩ | ⟨s, rfl⟩
  · have hhang := hb.string rfl
    apply hreadable hhang
    apply delimited_string (hbody.guarded _)
    rw [hangs_quoted] at hhang
    exact beq_eq_false_iff_ne.mp hhang
  · apply hreadable _ (scalar_delimited hscalar)
    obtain ⟨c, hc⟩ : ∃ c, v.getLast? = some c := ⟨_, List.getLast?_eq_some_getLast hscalar.1⟩
    apply hangs_of_last hc
    rintro rfl
    exact absurd (hscalar.2 _ (List.mem_of_getLast? hc)) (by decide)
  · obtain ⟨body, hbody, hdepth⟩ := hb.array rfl
    rw [hbody]
    rw [hbody] at hreadable
    exact hreadable (hangs_of_last List.getLast?_concat (by decide)) (delimited_array hdepth)
  · obtain ⟨body, hbody, hdepth⟩ := hb.object rfl
    rw [hbody]
    rw [hbody] at hreadable
    exact hreadable (hangs_of_last List.getLast?_concat (by decide)) (delimited_struct hdepth)

/-! ### Stored values are bounded -/

/-- What holds of a text the machine stores: it is bounded, and it is neither empty nor a single
quote. -/
structure Stored (v : Str) : Prop where
  bounded : Bounded v
  ne_nil : v ≠ []
  ne_quote : v ≠ [dquote]

/-- What the machine has of the value it is in; `prev` is the character in front. -/
inductive Pending : Option UInt8 → Parser → Prop
  | key {prev : Option UInt8} {key : Str} {conf : Config} :
      Pending prev ⟨.init, key, [], 0, 0, conf⟩
  | value {prev : Option UInt8} {key : Str} {conf : Config} :
      Pending prev ⟨.parseValue, key, [], 0, 0, conf⟩
  | string {prev : Option UInt8} {key v : Str} {conf : Config} :
      v.head? = some dquote → v.getLast? = prev → Pending prev ⟨.parseString, key, v, 0, 0, conf⟩
  | fundamental {prev : Option UInt8} {key u : Str} {c : UInt8} {conf : Config} :
      c ≠ dquote → c ≠ lbracket → c ≠ lbrace →
      Pending prev ⟨.parseFundamental, key, c :: u, 0, 0, conf⟩
  | iterable {prev : Option UInt8} {key w : Str} {n : ℕ} {conf : Config} :
      nestDepth lbracket rbracket 1 w = some n →
      Pending prev ⟨.parseIterable, key, lbracket :: w, 0, n, conf⟩
  | struct {prev : Option UInt8} {key w : Str} {n : ℕ} {conf : Config} :
      nestDepth lbrace rbrace 1 w = some n →
      Pending prev ⟨.parseStruct, key, lbrace :: w, n, 0, conf⟩
  | ended {prev : Option UInt8} {key v : Str} {conf : Config} :
      Stored v → Pending prev ⟨.endParse, key, v, 0, 0, conf⟩

/-- The invariant of the machine. -/
structure Keeps (prev : Option UInt8) (s : Parser) : Prop where
  pending : Pending prev s
  stored : ∀ e ∈ s.conf, Stored e.2

/-- A value that starts like no other. -/
theorem stored_fundamental {c : UInt8} {u : Str} (hquote : c ≠ dquote) (hbracket : c ≠ lbracket)
    (hbrace : c ≠ lbrace) : Stored (c :: u) where
  bounded :=
    { string := fun h => absurd (Option.some.inj h) hquote
      array := fun h => absurd (Option.some.inj h) hbracket
      object := fun h => absurd (Option.some.inj h) hbrace }
  ne_nil := List.cons_ne_nil _ _
  ne_quote h := hquote (List.cons.inj h).1

/-- The string that a quote ends. -/
theorem stored_string {v : Str} (hhead : v.head? = some dquote)
    (hlast : v.getLast?.any (fun c => c != bslash) = true) : Stored (v ++ [dquote]) := by
  obtain ⟨u, rfl⟩ : ∃ u, v = dquote :: u := by
    cases v with
    | nil => cases hhead
    | cons c u => exact ⟨u, by rw [Option.some.inj hhead]⟩
  refine ⟨⟨fun _ => ?_, fun h => absurd (Option.some.inj h) (by decide),
    fun h => absurd (Option.some.inj h) (by decide)⟩, by simp, by simp⟩
  rw [hangs, List.getLast?_concat, List.dropLast_concat]
  cases hv : (dquote :: u).getLast? with
  | none => rfl
  | some c =>
    rw [hv] at hlast
    have hc : c ≠ bslash := bne_iff_ne.mp hlast
    simp [hc]

theorem stored_array {body : Str} (h : nestDepth lbracket rbracket 1 body = some 1) :
    Stored (lbracket :: body ++ [rbracket]) where
  bounded :=
    { string := fun h => absurd (Option.some.inj h) (by decide)
      array := fun _ => ⟨body, rfl, h⟩
      object := fun h => absurd (Option.some.inj h) (by decide) }
  ne_nil := List.cons_ne_nil _ _
  ne_quote h := absurd (List.cons.inj h).1 (by decide)

theorem stored_object {body : Str} (h : nestDepth lbrace rbrace 1 body = some 1) :
    Stored (lbrace :: body ++ [rbrace]) where
  bounded :=
    { string := fun h => absurd (Option.some.inj h) (by decide)
      array := fun h => absurd (Option.some.inj h) (by decide)
      object := fun _ => ⟨body, rfl, h⟩ }
  ne_nil := List.cons_ne_nil _ _
  ne_quote h := absurd (List.cons.inj h).1 (by decide)

/-- One more symbol inside a nested text, and the layer the machine counts: it opens a level or
closes one that is not the first, it closes the first, or it is no bracket of this kind. -/
theorem nestDepth_snoc {op cl : UInt8} (hne : op ≠ cl) {w : Str} {n : ℕ}
    (h : nestDepth op cl 1 w = some n) (c : UInt8) :
    ((c = op ∨ c = cl) ∧ ∃ m : ℕ, (n : ℤ) + (if c = cl then -1 else 1) = m ∧ (m : ℤ) ≠ 0 ∧
      nestDepth op cl 1 (w ++ [c]) = some m) ∨
    (c = cl ∧ n = 1) ∨
    (¬(c = op ∨ c = cl) ∧ nestDepth op cl 1 (w ++ [c]) = some n) := by
  have hone : nestDepth op cl 1 (w ++ [c]) = nestDepth op cl n [c] := by
    rw [nestDepth_append, h]
    rfl
  have hpos := nestDepth_pos _ _ w Nat.one_pos h
  rw [hone]
  by_cases hop : c = op
  · refine .inl ⟨.inl hop, n + 1, ?_, by omega, by simp [nestDepth, hop]⟩
    rw [if_neg (hop ▸ hne)]
    rfl
  · by_cases hcl : c = cl
    · by_cases hn : n = 1
      · exact .inr (.inl ⟨hcl, hn⟩)
      · refine .inl ⟨.inr hcl, n - 1, ?_, by omega, by simp [nestDepth, hcl, hne.symm, hn]⟩
        rw [if_pos hcl]
        omega
    · exact .inr (.inr ⟨not_or.mpr ⟨hop, hcl⟩, by simp [nestDepth, hop, hcl]⟩)

theorem Config.mem_set {conf : Config} {key value : Str} {e : Str × Str}
    (h : e ∈ conf.set key value) : e = (key, value) ∨ e ∈ conf := by
  induction conf with
  | nil =>
    rw [set, List.mem_singleton] at h
    exact .inl h
  | cons d conf ih =>
    rw [set] at h
    split at h
    · exact (List.mem_cons.mp h).imp_right (List.mem_cons_of_mem d)
    · rcases List.mem_cons.mp h with h | h
      · exact .inr (h ▸ List.mem_cons_self)
      · exact (ih h).imp_right (List.mem_cons_of_mem d)

/-- **One pass through the loop keeps the invariant.** -/
theorem keeps_step {prev : Option UInt8} {s : Parser} (h : Keeps prev s) (it : UInt8) :
    Keeps (some it) (parseStep s prev it).1 := by
  obtain ⟨hpending, hstored⟩ := h
  cases hpending with
  | key =>
    simp only [parseStep]
    split_ifs
    · exact ⟨.value, hstored⟩
    · exact ⟨.key, hstored⟩
    · exact ⟨.key, hstored⟩
  | value =>
    simp only [parseStep, List.nil_append, zero_add]
    split_ifs with hblank hbrace hbracket hquote
    · exact ⟨.value, hstored⟩
    · rw [hbrace]
      exact ⟨.struct (n := 1) rfl, hstored⟩
    · rw [hbracket]
      exact ⟨.iterable (n := 1) rfl, hstored⟩
    · rw [hquote]
      exact ⟨.string rfl rfl, hstored⟩
    · exact ⟨.fundamental hquote hbracket hbrace, hstored⟩
  | @string key v conf hhead hlast =>
    simp only [parseStep]
    have hhead' : (v ++ [it]).head? = some dquote := by rw [List.head?_append, hhead]; rfl
    split_ifs with hend
    · obtain ⟨hquote, hany⟩ := hend
      rw [← hlast] at hany
      rw [hquote]
      exact ⟨.ended (stored_string hhead hany), hstored⟩
    · exact ⟨.string hhead' List.getLast?_concat, hstored⟩
  | fundamental hquote hbracket hbrace =>
    simp only [parseStep]
    split_ifs
    · exact ⟨.ended (stored_fundamental hquote hbracket hbrace), hstored⟩
    · exact ⟨.ended (stored_fundamental hquote hbracket hbrace), hstored⟩
    · exact ⟨.fundamental hquote hbracket hbrace, hstored⟩
  | @iterable key w n conf hdepth =>
    have hne : lbracket ≠ rbracket := by decide
    simp only [parseStep]
    rcases nestDepth_snoc hne hdepth it with ⟨hbracket, m, hlayer, hm, hinside⟩ | ⟨rfl, rfl⟩ |
      ⟨hother, hinside⟩
    · rw [if_pos hbracket, hlayer, if_neg hm]
      exact ⟨.iterable hinside, hstored⟩
    · exact ⟨.ended (stored_array hdepth), hstored⟩
    · rw [if_neg hother]
      exact ⟨.iterable hinside, hstored⟩
  | @struct key w n conf hdepth =>
    have hne : lbrace ≠ rbrace := by decide
    simp only [parseStep]
    rcases nestDepth_snoc hne hdepth it with ⟨hbracket, m, hlayer, hm, hinside⟩ | ⟨rfl, rfl⟩ |
      ⟨hother, hinside⟩
    · rw [if_pos hbracket, hlayer, if_neg hm]
      exact ⟨.struct hinside, hstored⟩
    · exact ⟨.ended (stored_object hdepth), hstored⟩
    · rw [if_neg hother]
      exact ⟨.struct hinside, hstored⟩
  | ended hvalue =>
    refine ⟨.key, fun e he => ?_⟩
    rcases Config.mem_set he with rfl | he
    · exact hvalue
    · exact hstored e he

/-- After a symbol the invariant holds again, also when the machine has looked at it twice. -/
theorem keeps_look {prev : Option UInt8} {s : Parser} (h : Keeps prev s) (it : UInt8) :
    Keeps (some it) (parseMachine.look s prev it) := by
  have hstep := keeps_step h it
  show Keeps (some it) (if (parseStep s prev it).2
    then (parseStep (parseStep s prev it).1 prev it).1 else (parseStep s prev it).1)
  split
  · next hagain =>
    rw [parseStep_endParse _ _ _ (parseStep_again s prev it hagain),
      ← parseStep_endParse _ (some it) it (parseStep_again s prev it hagain)]
    exact keeps_step hstep it
  · exact hstep

theorem keeps_run (t : Str) : ∀ {prev : Option UInt8} {s : Parser}, Keeps prev s →
    ∀ e ∈ (parseMachine.run s prev t).conf, Stored e.2 := by
  induction t with
  | nil => exact fun h => h.stored
  | cons it t ih => exact fun h => ih (keeps_look h it)

/-- **Whatever `parse` is given, it stores bounded texts only**, and none that is too short for the
setter of a string. -/
theorem parse_stored {json : Str} {conf : Config} (h : parse json = .ok conf) :
    ∀ e ∈ conf, Stored e.2 := by
  rw [parse] at h
  split at h
  · cases h
  · split at h
    · cases h
    · split at h
      · cases h
      · cases h
        exact keeps_run _ ⟨.key, List.forall_mem_nil _⟩

/-! ### The whole text -/

/-- The text of an object: its members, each with the text of its value, and the white space
around and inside the braces.  A name may hold every character that `parse` takes into one, and so
letters, digits and underscores. -/
structure ObjectSource where
  pre : Blanks
  inner : Blanks
  members : List Member
  post : Blanks
  values : ∀ m ∈ members, ValueText m.text
  distinct : (members.map fun m => m.name.1).Nodup

/-- The text itself; `inner` is all there is between the braces of an object without members. -/
def ObjectSource.text (j : ObjectSource) : Str :=
  j.pre.1 ++ ((match j.members with
    | [] => lbrace :: (j.inner.1 ++ [rbrace])
    | m :: ms => objectText m ms) ++ j.post.1)

/-- The names and the texts of the values. -/
def ObjectSource.pairs (j : ObjectSource) : List (Str × Str) :=
  j.members.map fun m => (m.name.1, m.text)

/-- `parse` returns a config with exactly these pairs. -/
def ObjectSource.Exact (j : ObjectSource) : Prop :=
  ∃ conf, parse j.text = .ok conf ∧ conf.Perm j.pairs

/-- An object without members. -/
theorem parse_empty (pre inner post : Blanks) :
    parse (pre.1 ++ (lbrace :: (inner.1 ++ [rbrace]) ++ post.1)) = .ok [] := by
  have hlast : (lbrace :: (inner.1 ++ [rbrace])).getLast? = some rbrace := by
    rw [← List.cons_append, List.getLast?_concat]
  have hrun : (parseMachine.run Parser.start none (lbrace :: (inner.1 ++ [rbrace]))).conf = [] := by
    show (parseMachine.run (atKey [] []) none _).conf = []
    rw [run_ignored [] [] none _ (.inr (.inr rfl)), conf_atEnd [] none [] inner.2]
  rw [parse, trimBlank_eq]
  simp only
  rw [if_neg (by simp), if_neg (not_not_intro hlast), hrun]

/-- **`parse` returns exactly the members of these objects.**  For every object with distinct names,
whatever its values are and wherever its white space stands, the config holds exactly the names,
each with the source text of its value, if and only if every value is bounded. -/
theorem parse_exact_iff (j : ObjectSource) : j.Exact ↔ ∀ m ∈ j.members, Bounded m.text := by
  constructor
  · intro ⟨conf, hparse, hperm⟩ m hm
    have hmem : (m.name.1, m.text) ∈ conf := hperm.mem_iff.mpr (List.mem_map_of_mem hm)
    exact (parse_stored hparse _ hmem).bounded
  · intro hbounded
    obtain ⟨pre, inner, members, post, hvalues, hdistinct⟩ := j
    cases members with
    | nil => exact ⟨[], parse_empty pre inner post, List.Perm.refl _⟩
    | cons m ms =>
      have hread : ∀ e ∈ m :: ms, hangs e.text = false ∧ Readable e.text := fun e he =>
        (hvalues e he).readable (hbounded e he)
      refine ⟨_, parse_objectText pre post m ms (fun e he => (hread e he).2) hdistinct, ?_⟩
      rw [stored_eq_map _ fun e he => (hread e he).1]
      exact List.Perm.refl _

/-- The text of a nested object whose only string is a closing brace. -/
def braceText : Str :=
  lbrace :: (quoted (ascii "k") ++ colon :: quoted [rbrace]) ++ [rbrace]

theorem braceText_value : ValueText braceText := by
  have hkey : StringBody (ascii "k") := .plain (by decide) (by decide) (by decide) .nil
  have hbrace : StringBody [rbrace] := .plain (by decide) (by decide) (by decide) .nil
  have hws : Ws [] := List.forall_mem_nil _
  exact .object (.one hws hkey hws hws (.string hbrace) hws)

theorem one_value : ValueText (ascii "1") := by
  refine .number ⟨[], ascii "1", [], [], rfl, .inl rfl, ⟨⟨by decide, ?_⟩, ?_⟩, .inl rfl, .inl rfl⟩
  · exact List.all_eq_true.mp rfl
  · decide

/-- An object with this member and one more. -/
def braceSource : ObjectSource where
  pre := noBlanks
  inner := noBlanks
  members := [plainMember (ascii "a") braceText (List.all_eq_true.mp rfl),
    plainMember (ascii "b") (ascii "1") (List.all_eq_true.mp rfl)]
  post := noBlanks
  values := List.forall_mem_cons.mpr ⟨braceText_value, List.forall_mem_cons.mpr
    ⟨one_value, List.forall_mem_nil _⟩⟩
  distinct := by decide

/-- **The brace in the string ends the nested object**, and the brace that should have becomes a
part of the next name. -/
theorem parse_brace :
    parse braceSource.text = .ok [(ascii "a", braceText.dropLast.dropLast),
      (rbrace :: ascii "b", ascii "1")] ∧ ¬ braceSource.Exact := by
  have hparse : parse braceSource.text = .ok [(ascii "a", braceText.dropLast.dropLast),
      (rbrace :: ascii "b", ascii "1")] := by rfl
  refine ⟨hparse, fun ⟨conf, hconf, hperm⟩ => ?_⟩
  rw [hparse] at hconf
  cases hconf
  have hmem : (ascii "a", braceText) ∈ _ := hperm.mem_iff.mpr List.mem_cons_self
  exact absurd hmem (by decide)

end Rojcpp.Json
