import Rojcpp.Json.Parse

/-!
# The machine on the text of an object

How the machine runs over the pieces an object's text is made of: blanks, a name, and the four
kinds of values.  A value is *delimited* when the machine stores exactly its text, whatever
stands behind it in an object.

A string is delimited unless the character in front of its closing quote is a backslash.  Then
the machine takes the quote for an escaped one and goes on to the next quote, which is the opening
quote of the next name: the string is stored together with what lies between, and the next name is
read as usual.  `stored` says what the machine keeps of a list of members.
-/

namespace Rojcpp.Json

open Rojcpp.Lib

/-! ### States between two pieces -/

/-- In front of a name, or inside one. -/
def atKey (key : Str) (conf : Config) : Parser := ⟨.init, key, [], 0, 0, conf⟩

/-- Behind the colon. -/
def atValue (key : Str) (conf : Config) : Parser := ⟨.parseValue, key, [], 0, 0, conf⟩

/-- Inside a string. -/
def inString (key value : Str) (conf : Config) : Parser := ⟨.parseString, key, value, 0, 0, conf⟩

/-- Inside a number. -/
def inFundamental (key : Str) (conf : Config) (value : Str) : Parser :=
  ⟨.parseFundamental, key, value, 0, 0, conf⟩

/-- Inside a list. -/
def inIterable (key : Str) (conf : Config) (value : Str) : Parser :=
  ⟨.parseIterable, key, value, 0, 1, conf⟩

/-- Inside a nested object, `n` braces deep. -/
def inStruct (key value : Str) (n : ℕ) (conf : Config) : Parser :=
  ⟨.parseStruct, key, value, n, 0, conf⟩

/-- Only `parse_string` looks at the character behind. -/
theorem blind_of_state {s : Parser} (h : s.state ≠ .parseString) : parseMachine.Blind s := by
  apply parseMachine.blind_of_step
  · intro prev prev' it
    exact parseStep_prev (fun hquote => h hquote.1) prev prev'
  · intro prev it hback q q'
    have hend := parseStep_again s prev it hback
    exact (parseStep_endParse _ q it hend).trans (parseStep_endParse _ q' it hend).symm

theorem blind_atKey (key : Str) (conf : Config) : parseMachine.Blind (atKey key conf) :=
  blind_of_state (by simp [atKey])

theorem blind_atValue (key : Str) (conf : Config) : parseMachine.Blind (atValue key conf) :=
  blind_of_state (by simp [atValue])

/-- The character that ends a value is looked at again, and then the pair is in the map. -/
theorem look_end {s : Parser} {prev : Option UInt8} {it : UInt8} {key value : Str} {conf : Config}
    (h : parseStep s prev it = (⟨.endParse, key, value, 0, 0, conf⟩, true)) :
    parseMachine.look s prev it = atKey [] (conf.set key value) := by
  rw [parseMachine.look_again h]
  rfl

/-! ### Blanks, names and punctuation -/

/-- A character `parse` takes into a name. -/
def isNameChar (c : UInt8) : Bool :=
  c != colon && isBlankChar c == false && c != comma && c != lbrace && c != dquote

section
variable (key : Str) (conf : Config) (prev : Option UInt8) (t : Str)

theorem run_blanks_key {ws : Str} (hws : ∀ c ∈ ws, isBlankChar c = true) :
    parseMachine.run (atKey key conf) prev (ws ++ t) =
      parseMachine.run (atKey key conf) none t := by
  apply parseMachine.run_skip (blind_atKey key conf)
  intro c hc
  have hblank := hws c hc
  have hcolon : c ≠ colon := by rintro rfl; exact absurd hblank (by decide)
  apply parseMachine.look_once
  simp [parseMachine, parseStep, atKey, hblank, hcolon]

theorem run_blanks_value {ws : Str} (hws : ∀ c ∈ ws, isBlankChar c = true) :
    parseMachine.run (atValue key conf) prev (ws ++ t) =
      parseMachine.run (atValue key conf) none t := by
  apply parseMachine.run_skip (blind_atValue key conf)
  intro c hc
  apply parseMachine.look_once
  simp [parseMachine, parseStep, atValue, hws c hc]

theorem run_name {name : Str} (hname : ∀ c ∈ name, isNameChar c = true) :
    parseMachine.run (atKey key conf) prev (name ++ t) =
      parseMachine.run (atKey (key ++ name) conf) none t := by
  apply parseMachine.run_collect (fun key => atKey key conf) (fun key => blind_atKey key conf)
  intro key c hc
  have hchar := hname c hc
  simp only [isNameChar, Bool.and_eq_true, bne_iff_ne, beq_iff_eq] at hchar
  apply parseMachine.look_once
  simp [parseMachine, parseStep, atKey, hchar]

/-- Quotes, commas and opening braces leave a name as it is. -/
theorem run_ignored {c : UInt8} (hc : c = dquote ∨ c = comma ∨ c = lbrace) :
    parseMachine.run (atKey key conf) prev (c :: t) = parseMachine.run (atKey key conf) none t := by
  apply parseMachine.run_step _ (blind_atKey key conf)
  apply parseMachine.look_once
  rcases hc with rfl | rfl | rfl <;> rfl

theorem run_colon :
    parseMachine.run (atKey key conf) prev (colon :: t) =
      parseMachine.run (atValue key conf) none t := by
  apply parseMachine.run_step _ (blind_atValue key conf)
  exact parseMachine.look_once rfl

end

/-! ### Values -/

/-- The characters that may follow a value in an object. -/
def endsValue (c : UInt8) : Prop := isBlankChar c = true ∨ c = comma ∨ c = rbrace

/-- The machine stores exactly this text.  The key that is left over is empty unless the object
ends here. -/
def Delimited (v : Str) : Prop :=
  ∀ key conf prev c t, endsValue c → ∃ key',
    parseMachine.run (atValue key conf) prev (v ++ c :: t) =
      parseMachine.run (atKey key' (conf.set key v)) none t ∧ (c ≠ rbrace → key' = [])

/-- A value that ends with its own last character. -/
theorem delimited_of_closed {v : Str}
    (h : ∀ key conf prev t, parseMachine.run (atValue key conf) prev (v ++ t) =
      parseMachine.run (atKey [] (conf.set key v)) none t) : Delimited v := by
  intro key conf prev c t hc
  rw [h]
  rcases hc with hblank | rfl | rfl
  · have hws : ∀ d ∈ [c], isBlankChar d = true := by simpa using hblank
    exact ⟨[], run_blanks_key [] _ none t hws, fun _ => rfl⟩
  · exact ⟨[], run_ignored [] _ none t (.inr (.inl rfl)), fun _ => rfl⟩
  · have hname : ∀ d ∈ [rbrace], isNameChar d = true := List.all_eq_true.mp rfl
    exact ⟨[rbrace], run_name [] _ none t hname, fun hne => absurd rfl hne⟩

/-- Numbers: nothing that opens another kind of value in front, nothing that ends a number
inside. -/
theorem delimited_fundamental {c : UInt8} {u : Str}
    (hc : isBlankChar c = false ∧ c ≠ lbrace ∧ c ≠ lbracket ∧ c ≠ dquote)
    (hu : ∀ d ∈ u, d ≠ comma ∧ d ≠ rbrace ∧ d ≠ dquote ∧ isBlankChar d = false) :
    Delimited (c :: u) := by
  intro key conf prev d t hd
  have hblind : ∀ v, parseMachine.Blind (inFundamental key conf v) := fun v =>
    blind_of_state (by simp [inFundamental])
  have hfirst : parseMachine.look (atValue key conf) prev c = inFundamental key conf [c] := by
    apply parseMachine.look_once
    simp [parseMachine, parseStep, atValue, inFundamental, hc]
  have hmore : ∀ v, ∀ a ∈ u, parseMachine.look (inFundamental key conf v) none a =
      inFundamental key conf (v ++ [a]) := by
    intro v a ha
    apply parseMachine.look_once
    simp [parseMachine, parseStep, inFundamental, hu a ha]
  have hend : parseMachine.look (inFundamental key conf (c :: u)) none d =
      atKey [] (conf.set key (c :: u)) := by
    have hquote : d ≠ dquote := by
      rcases hd with h | rfl | rfl
      · rintro rfl; exact absurd h (by decide)
      · decide
      · decide
    have hstop : d = comma ∨ d = rbrace ∨ d = dquote ∨ isBlankChar d = true := by
      rcases hd with h | h | h
      · exact .inr (.inr (.inr h))
      · exact .inl h
      · exact .inr (.inl h)
    apply look_end
    rw [parseStep]
    simp only [inFundamental, if_pos hstop, if_neg hquote]
  refine ⟨[], ?_, fun _ => rfl⟩
  rw [List.cons_append, parseMachine.run_step hfirst (hblind _),
    parseMachine.run_collect _ hblind hmore, List.singleton_append,
    parseMachine.run_step hend (blind_atKey _ _)]

/-- Lists without a bracket inside. -/
theorem delimited_iterable {body : Str} (h : ∀ c ∈ body, c ≠ lbracket ∧ c ≠ rbracket) :
    Delimited (lbracket :: body ++ [rbracket]) := by
  apply delimited_of_closed
  intro key conf prev t
  have hblind : ∀ v, parseMachine.Blind (inIterable key conf v) := fun v =>
    blind_of_state (by simp [inIterable])
  have hfirst : parseMachine.look (atValue key conf) prev lbracket =
      inIterable key conf [lbracket] := parseMachine.look_once rfl
  have hmore : ∀ v, ∀ a ∈ body, parseMachine.look (inIterable key conf v) none a =
      inIterable key conf (v ++ [a]) := by
    intro v a ha
    apply parseMachine.look_once
    simp [parseMachine, parseStep, inIterable, h a ha]
  have hend : ∀ v, parseMachine.look (inIterable key conf v) none rbracket =
      atKey [] (conf.set key (v ++ [rbracket])) := fun v => look_end rfl
  rw [List.append_assoc, List.cons_append, parseMachine.run_step hfirst (hblind _),
    parseMachine.run_collect _ hblind hmore, List.singleton_append, List.singleton_append,
    parseMachine.run_step (hend _) (blind_atKey _ _)]

theorem run_struct (key : Str) (conf : Config) (body : Str) (t : Str) :
    ∀ (v : Str) (n k : ℕ) (prev : Option UInt8), 0 < n →
      nestDepth lbrace rbrace n body = some k →
      0 < k ∧ parseMachine.run (inStruct key v n conf) prev (body ++ t) =
        parseMachine.run (inStruct key (v ++ body) k conf) none t := by
  intro v n k prev hn hdepth
  have hblind : ∀ v n, parseMachine.Blind (inStruct key v n conf) := fun v n =>
    blind_of_state (by simp [inStruct])
  have hopen : ∀ v n, parseMachine.look (inStruct key v n conf) none lbrace =
      inStruct key (v ++ [lbrace]) (n + 1) conf := by
    intro v n
    have hlayer : (n : ℤ) + 1 ≠ 0 := by omega
    apply parseMachine.look_once
    simp [parseMachine, parseStep, inStruct, hlayer, show lbrace ≠ rbrace by decide]
  have hclose : ∀ v n, 1 < n → parseMachine.look (inStruct key v n conf) none rbrace =
      inStruct key (v ++ [rbrace]) (n - 1) conf := by
    intro v n hone
    have hlayer : (n : ℤ) + -1 = ((n - 1 : ℕ) : ℤ) := by omega
    have hpos : n - 1 ≠ 0 := by omega
    apply parseMachine.look_once
    simp [parseMachine, parseStep, inStruct, hlayer, hpos]
  have hother : ∀ v n, ∀ c, c ≠ lbrace → c ≠ rbrace →
      parseMachine.look (inStruct key v n conf) none c = inStruct key (v ++ [c]) n conf := by
    intro v n c hop hcl
    apply parseMachine.look_once
    simp [parseMachine, parseStep, inStruct, hop, hcl]
  refine ⟨nestDepth_pos _ _ body hn hdepth, ?_⟩
  exact parseMachine.run_nest _ _ (fun v n => inStruct key v n conf) hblind hopen hclose hother
    body t v n k prev hn hdepth

/-- Nested objects whose braces close only at the end. -/
theorem delimited_struct {body : Str} (h : nestDepth lbrace rbrace 1 body = some 1) :
    Delimited (lbrace :: body ++ [rbrace]) := by
  apply delimited_of_closed
  intro key conf prev t
  have hfirst : parseMachine.look (atValue key conf) prev lbrace =
      inStruct key [lbrace] 1 conf := parseMachine.look_once rfl
  have hend : ∀ v, parseMachine.look (inStruct key v 1 conf) none rbrace =
      atKey [] (conf.set key (v ++ [rbrace])) := fun v => look_end rfl
  obtain ⟨-, hrun⟩ := run_struct key conf body (rbrace :: t) [lbrace] 1 1 (some lbrace) (by omega) h
  rw [List.append_assoc, List.cons_append, Scanner.run, hfirst, List.singleton_append, hrun,
    parseMachine.run_step (hend _) (blind_atKey _ _)]
  rfl

/-! ### Strings -/

/-- Every quote in the text stands behind a backslash; `prev` is the character in front. -/
def Guarded (prev : UInt8) : Str → Prop
  | [] => True
  | c :: t => (c = dquote → prev = bslash) ∧ Guarded c t

theorem guarded_append (u t : Str) : ∀ prev, Guarded prev (u ++ t) ↔
    Guarded prev u ∧ Guarded (u.getLastD prev) t := by
  induction u with
  | nil => intro prev; simp [Guarded]
  | cons c u ih =>
    intro prev
    rw [List.cons_append, Guarded, Guarded, ih c, and_assoc, List.getLastD_cons]

theorem guarded_of_no_quote {u : Str} (h : dquote ∉ u) : ∀ prev, Guarded prev u := by
  induction u with
  | nil => intro prev; trivial
  | cons c u ih =>
    intro prev
    refine ⟨?_, ih (fun hu => h (by simp [hu])) c⟩
    rintro rfl
    exact absurd (by simp) h

section
variable (key : Str) (conf : Config)

/-- A guarded text stays inside the string. -/
theorem run_body (body t : Str) : ∀ (v : Str) (prev : UInt8), Guarded prev body →
    parseMachine.run (inString key v conf) (some prev) (body ++ t) =
      parseMachine.run (inString key (v ++ body) conf) (some (body.getLastD prev)) t := by
  induction body with
  | nil => intro v prev _; rw [List.append_nil]; rfl
  | cons c body ih =>
    intro v prev hguard
    have hlook : parseMachine.look (inString key v conf) (some prev) c =
        inString key (v ++ [c]) conf := by
      apply parseMachine.look_once
      by_cases hquote : c = dquote
      · simp [parseMachine, parseStep, inString, hguard.1 hquote]
      · simp [parseMachine, parseStep, inString, hquote]
    rw [List.cons_append, Scanner.run, hlook, ih _ c hguard.2, List.append_assoc,
      List.singleton_append, List.getLastD_cons]

/-- A quote that is not behind a backslash ends the string. -/
theorem run_close (v t : Str) {prev : UInt8} (h : prev ≠ bslash) :
    parseMachine.run (inString key v conf) (some prev) (dquote :: t) =
      parseMachine.run (atKey [] (conf.set key (v ++ [dquote]))) none t := by
  apply parseMachine.run_step _ (blind_atKey _ _)
  apply look_end
  simp [parseStep, inString, h]

/-- The opening quote. -/
theorem run_open (prev : Option UInt8) (t : Str) :
    parseMachine.run (atValue key conf) prev (dquote :: t) =
      parseMachine.run (inString key [dquote] conf) (some dquote) t := by
  rw [Scanner.run]
  rfl

end

/-- Strings that do not end with a backslash. -/
theorem delimited_string {body : Str} (h : Guarded dquote body)
    (hlast : body.getLast? ≠ some bslash) : Delimited (quoted body) := by
  apply delimited_of_closed
  intro key conf prev t
  have hne : body.getLastD dquote ≠ bslash := by
    rw [List.getLastD_eq_getLast?]
    cases hb : body.getLast? with
    | none => decide
    | some c => rw [hb] at hlast; exact fun hc => hlast (congrArg some hc)
  rw [quoted, List.append_assoc, List.cons_append, run_open, run_body key conf _ _ _ _ h]
  exact run_close key conf _ t hne

/-! ### Members -/

/-- White space. -/
abbrev Blanks := { ws : Str // ∀ c ∈ ws, isBlankChar c = true }

/-- No white space. -/
def noBlanks : Blanks := ⟨[], List.forall_mem_nil _⟩

/-- One space. -/
def oneBlank : Blanks := ⟨[32], List.all_eq_true.mp rfl⟩

@[simp] theorem noBlanks_val : noBlanks.1 = [] := rfl

@[simp] theorem oneBlank_val : oneBlank.1 = [32] := rfl

/-- A name of letters, digits and the like. -/
abbrev Name := { name : Str // ∀ c ∈ name, isNameChar c = true }

/-- A member of an object's text: its name, the text of its value, and the blanks in front of the
name, around the colon and behind the value. -/
structure Member where
  name : Name
  text : Str
  lead : Blanks
  beforeColon : Blanks
  afterColon : Blanks
  trail : Blanks

/-- A member without any white space. -/
def plainMember (name text : Str) (h : ∀ c ∈ name, isNameChar c = true) : Member :=
  ⟨⟨name, h⟩, text, noBlanks, noBlanks, noBlanks, noBlanks⟩

/-- A member's text from the name on. -/
def Member.fromName (m : Member) : Str :=
  m.name.1 ++ dquote :: (m.beforeColon.1 ++ colon :: (m.afterColon.1 ++ (m.text ++ m.trail.1)))

/-- What follows a member: the other members and the closing brace. -/
def afterMember : List Member → Str
  | [] => [rbrace]
  | m :: ms => comma :: (m.lead.1 ++ dquote :: (m.fromName ++ afterMember ms))

/-- The text of an object with at least one member. -/
def objectText (m : Member) (ms : List Member) : Str :=
  lbrace :: (m.lead.1 ++ dquote :: (m.fromName ++ afterMember ms))

/-- The text ends with a quote behind a backslash. -/
def hangs (text : Str) : Bool :=
  text.getLast? == some dquote && text.dropLast.getLast? == some bslash

/-- What the machine stores for a list of members. -/
def stored : List Member → List (Str × Str)
  | [] => []
  | [m] => if hangs m.text then [] else [(m.name.1, m.text)]
  | m :: n :: ms =>
    (m.name.1,
      if hangs m.text then m.text ++ (m.trail.1 ++ comma :: (n.lead.1 ++ [dquote])) else m.text) ::
    stored (n :: ms)

/-- The values the machine knows how to handle: delimited ones, and strings that hang. -/
def Readable (text : Str) : Prop :=
  if hangs text then ∃ body, text = quoted body ∧ Guarded dquote body else Delimited text

theorem hangs_int (n : Int32) : hangs (toStringInt n) = false := by
  have hlast : (toStringInt n).getLast? ≠ some dquote := by
    intro hlast
    exact absurd ((toStringInt_chars n).2 dquote (List.mem_of_getLast? hlast)) (by decide)
  rw [hangs, beq_eq_false_iff_ne.mpr hlast, Bool.false_and]

/-- Numbers. -/
theorem readable_int (n : Int32) : Readable (toStringInt n) := by
  obtain ⟨hne, hchars⟩ := toStringInt_chars n
  obtain ⟨c, u, hcu⟩ := List.exists_cons_of_ne_nil hne
  rw [hcu] at hchars
  have hblank : ∀ d, isNumberChar d = true → isBlankChar d = false := by
    intro d hd
    simp only [isBlankChar, Bool.or_eq_false_iff, beq_eq_false_iff_ne]
    exact ⟨⟨⟨ne_of_isNumberChar hd rfl, ne_of_isNumberChar hd rfl⟩, ne_of_isNumberChar hd rfl⟩,
      ne_of_isNumberChar hd rfl⟩
  rw [Readable, hangs_int, hcu]
  apply delimited_fundamental
  · have hc := hchars c (by simp)
    exact ⟨hblank c hc, ne_of_isNumberChar hc rfl, ne_of_isNumberChar hc rfl,
      ne_of_isNumberChar hc rfl⟩
  · intro d hd
    have hd := hchars d (by simp [hd])
    exact ⟨ne_of_isNumberChar hd rfl, ne_of_isNumberChar hd rfl, ne_of_isNumberChar hd rfl,
      hblank d hd⟩

theorem hangs_quoted (body : Str) : hangs (quoted body) = (body.getLast? == some bslash) := by
  rw [hangs, quoted, List.getLast?_concat, List.dropLast_concat, List.getLast?_cons]
  cases body.getLast? with
  | none => rfl
  | some c => rfl

/-- Strings, whatever they end with. -/
theorem readable_string {body : Str} (h : Guarded dquote body) : Readable (quoted body) := by
  rw [Readable, hangs_quoted]
  split
  · exact ⟨body, rfl, h⟩
  · next hlast => exact delimited_string h (by simpa using hlast)

section
variable (conf : Config) (prev : Option UInt8)

/-- From a name to its value. -/
theorem run_toValue (m : Member) (t : Str) :
    parseMachine.run (atKey [] conf) prev (m.fromName ++ t) =
      parseMachine.run (atValue m.name.1 conf) none (m.text ++ (m.trail.1 ++ t)) := by
  have hassoc : m.fromName ++ t = m.name.1 ++ dquote :: (m.beforeColon.1 ++
      colon :: (m.afterColon.1 ++ (m.text ++ (m.trail.1 ++ t)))) := by
    simp only [Member.fromName, List.append_assoc, List.cons_append]
  rw [hassoc, run_name [] conf prev _ m.name.2, List.nil_append,
    run_ignored _ conf none _ (.inl rfl), run_blanks_key _ conf none _ m.beforeColon.2, run_colon,
    run_blanks_value _ conf none _ m.afterColon.2]

/-- From the end of a value to the next name. -/
theorem run_toName (m n : Member) (ms : List Member) :
    parseMachine.run (atKey [] conf) prev (m.trail.1 ++ afterMember (n :: ms)) =
      parseMachine.run (atKey [] conf) none (n.fromName ++ afterMember ms) := by
  rw [run_blanks_key _ conf prev _ m.trail.2, afterMember,
    run_ignored _ conf none _ (.inr (.inl rfl)),
    run_blanks_key _ conf none _ n.lead.2, run_ignored _ conf none _ (.inl rfl)]

/-- Behind the last value nothing more is stored. -/
theorem conf_atEnd (key : Str) {ws : Str} (hws : ∀ c ∈ ws, isBlankChar c = true) :
    (parseMachine.run (atKey key conf) prev (ws ++ [rbrace])).conf = conf := by
  rw [run_blanks_key key conf prev _ hws]
  rfl

/-- A delimited value in front of another member. -/
theorem run_delimited (m n : Member) (ms : List Member) (h : Delimited m.text) :
    parseMachine.run (atValue m.name.1 conf) prev (m.text ++ (m.trail.1 ++ afterMember (n :: ms))) =
      parseMachine.run (atKey [] (conf.set m.name.1 m.text)) none
        (n.fromName ++ afterMember ms) := by
  have hnext : ∃ c t, m.trail.1 ++ afterMember (n :: ms) = c :: t ∧
      (isBlankChar c = true ∨ c = comma) := by
    cases htrail : m.trail.1 with
    | nil => exact ⟨comma, _, rfl, .inr rfl⟩
    | cons c ws =>
      exact ⟨c, _, rfl, .inl (m.trail.2 c (by rw [htrail]; exact List.mem_cons_self))⟩
  obtain ⟨c, t, hct, hc⟩ := hnext
  have hbrace : c ≠ rbrace := by
    rcases hc with hc | rfl
    · rintro rfl; exact absurd hc (by decide)
    · decide
  obtain ⟨key', hrun, hkey⟩ := h m.name.1 conf prev c t
    (by rcases hc with hc | hc; exact .inl hc; exact .inr (.inl hc))
  have hskip : parseMachine.run (atKey [] (conf.set m.name.1 m.text)) none (c :: t) =
      parseMachine.run (atKey [] (conf.set m.name.1 m.text)) none t := by
    rcases hc with hc | rfl
    · have hws : ∀ d ∈ [c], isBlankChar d = true := by simpa using hc
      exact run_blanks_key [] _ none t hws
    · exact run_ignored [] _ none t (.inr (.inl rfl))
  rw [← run_toName _ none m n ms, hct, hrun, hkey hbrace, hskip]

end

/-- The text of a string that hangs ends with a backslash in front of its closing quote. -/
theorem getLastD_of_hangs {body : Str} (h : hangs (quoted body) = true) :
    body.getLastD dquote = bslash := by
  rw [hangs, Bool.and_eq_true, beq_iff_eq, beq_iff_eq] at h
  obtain ⟨-, h⟩ := h
  rw [quoted, List.dropLast_concat, List.getLast?_cons] at h
  rw [List.getLastD_eq_getLast?]
  exact Option.some.inj h

/-- Blanks and a comma between two members hold no quote and do not end with a backslash. -/
theorem separator_guarded (m n : Member) (prev : UInt8) :
    Guarded prev (m.trail.1 ++ comma :: n.lead.1) ∧
      (m.trail.1 ++ comma :: n.lead.1).getLastD prev ≠ bslash := by
  have hmem : ∀ c ∈ m.trail.1 ++ comma :: n.lead.1, isBlankChar c = true ∨ c = comma := by
    intro c hc
    rcases List.mem_append.mp hc with hc | hc
    · exact .inl (m.trail.2 c hc)
    · rcases List.mem_cons.mp hc with hc | hc
      · exact .inr hc
      · exact .inl (n.lead.2 c hc)
  constructor
  · apply guarded_of_no_quote
    intro hquote
    exact absurd (hmem _ hquote) (by decide)
  · intro hlast
    have hin : bslash ∈ m.trail.1 ++ comma :: n.lead.1 := by
      rw [List.getLastD_eq_getLast?, List.getLast?_eq_some_getLast (by simp)] at hlast
      rw [← hlast]
      exact List.getLast_mem _
    exact absurd (hmem _ hin) (by decide)

/-- The last member of an object. -/
theorem run_last (m : Member) (conf : Config) (prev : Option UInt8) (hm : Readable m.text) :
    (parseMachine.run (atKey [] conf) prev (m.fromName ++ afterMember [])).conf =
      conf.setAll (stored [m]) := by
  rw [Readable] at hm
  rw [run_toValue, stored, afterMember]
  by_cases hhang : hangs m.text = true
  · rw [if_pos hhang] at hm ⊢
    obtain ⟨body, htext, hguard⟩ := hm
    have hlast := getLastD_of_hangs (htext ▸ hhang)
    have hrest : Guarded dquote (body ++ dquote :: (m.trail.1 ++ [rbrace])) := by
      refine (guarded_append _ _ _).mpr ⟨hguard, fun _ => hlast, ?_⟩
      refine (guarded_append _ _ _).mpr ⟨?_, ?_⟩
      · apply guarded_of_no_quote
        intro hquote
        exact absurd (m.trail.2 _ hquote) (by decide)
      · exact guarded_of_no_quote (by decide) _
    have hopen : m.text ++ (m.trail.1 ++ [rbrace]) =
        dquote :: ((body ++ dquote :: (m.trail.1 ++ [rbrace])) ++ []) := by
      rw [htext, quoted, List.append_nil, List.append_assoc]
      rfl
    rw [hopen, run_open, run_body _ conf _ _ _ _ hrest]
    rfl
  · rw [if_neg hhang] at hm ⊢
    show _ = conf.set m.name.1 m.text
    cases htrail : m.trail.1 with
    | nil =>
      obtain ⟨key', hrun, -⟩ := hm m.name.1 conf none rbrace [] (.inr (.inr rfl))
      rw [List.nil_append, hrun]
      rfl
    | cons c ws =>
      have hblank : ∀ d ∈ c :: ws, isBlankChar d = true := fun d hd =>
        m.trail.2 d (by rw [htrail]; exact hd)
      obtain ⟨key', hrun, -⟩ := hm m.name.1 conf none c (ws ++ [rbrace])
        (.inl (hblank c (by simp)))
      rw [List.cons_append, hrun, conf_atEnd _ _ _ fun d hd => hblank d (by simp [hd])]

/-- A member in front of another one: a string that hangs takes the text up to the quote of the next
name with it. -/
theorem run_next (m n : Member) (ms : List Member) (conf : Config) (prev : Option UInt8)
    (hm : Readable m.text) :
    parseMachine.run (atKey [] conf) prev (m.fromName ++ afterMember (n :: ms)) =
      parseMachine.run (atKey [] (conf.set m.name.1
        (if hangs m.text then m.text ++ (m.trail.1 ++ comma :: (n.lead.1 ++ [dquote]))
          else m.text))) none (n.fromName ++ afterMember ms) := by
  rw [Readable] at hm
  rw [run_toValue]
  by_cases hhang : hangs m.text = true
  · rw [if_pos hhang] at hm ⊢
    obtain ⟨body, htext, hguard⟩ := hm
    have hlast := getLastD_of_hangs (htext ▸ hhang)
    obtain ⟨hsep, hnext⟩ := separator_guarded m n dquote
    have hrest : Guarded dquote (body ++ dquote :: (m.trail.1 ++ comma :: n.lead.1)) :=
      (guarded_append _ _ _).mpr ⟨hguard, fun _ => hlast, hsep⟩
    have hopen : m.text ++ (m.trail.1 ++ afterMember (n :: ms)) =
        dquote :: ((body ++ dquote :: (m.trail.1 ++ comma :: n.lead.1)) ++
          dquote :: (n.fromName ++ afterMember ms)) := by
      rw [htext, quoted, afterMember]
      simp only [List.append_assoc, List.cons_append, List.nil_append]
    have hprev :
        (body ++ dquote :: (m.trail.1 ++ comma :: n.lead.1)).getLastD dquote ≠ bslash := by
      rw [List.getLastD_eq_getLast?, List.getLast?_append, List.getLast?_cons,
        ← List.getLastD_eq_getLast?]
      exact hnext
    have hvalue : [dquote] ++ (body ++ dquote :: (m.trail.1 ++ comma :: n.lead.1)) ++ [dquote] =
        m.text ++ (m.trail.1 ++ comma :: (n.lead.1 ++ [dquote])) := by
      rw [htext, quoted]
      simp only [List.append_assoc, List.cons_append, List.nil_append]
    rw [hopen, run_open, run_body _ conf _ _ _ _ hrest, run_close _ conf _ _ hprev, hvalue]
  · rw [if_neg hhang] at hm ⊢
    exact run_delimited conf none m n ms hm

/-- **What the machine keeps of an object's text**, from its first name on. -/
theorem run_members (ms : List Member) : ∀ (m : Member) (conf : Config) (prev : Option UInt8),
    (∀ e ∈ m :: ms, Readable e.text) →
    (parseMachine.run (atKey [] conf) prev (m.fromName ++ afterMember ms)).conf =
      conf.setAll (stored (m :: ms)) := by
  induction ms with
  | nil =>
    intro m conf prev hread
    exact run_last m conf prev (hread m List.mem_cons_self)
  | cons n ms ih =>
    intro m conf prev hread
    rw [run_next m n ms conf prev (hread m List.mem_cons_self),
      ih n _ none fun e he => hread e (List.mem_cons_of_mem m he), stored, Config.setAll,
      Config.setAll, List.foldl_cons]

/-! ### The whole text -/

/-- The names under which something is stored are names of members, in their order. -/
theorem stored_names (ms : List Member) :
    ((stored ms).map Prod.fst).Sublist (ms.map fun m => m.name.1) := by
  induction ms with
  | nil => exact List.Sublist.refl _
  | cons m ms ih =>
    cases ms with
    | nil =>
      rw [stored]
      split
      · exact List.nil_sublist _
      · exact List.Sublist.refl _
    | cons n ms =>
      rw [stored, List.map_cons, List.map_cons]
      exact ih.cons_cons _

/-- A stored text is the member's own, or that of a hanging string with what follows it up to the
next quote. -/
theorem stored_mem (ms : List Member) : ∀ e ∈ stored ms, ∃ m ∈ ms, m.name.1 = e.1 ∧
    if hangs m.text then ∃ sep, bslash ∉ sep ∧ e.2 = m.text ++ (sep ++ [dquote])
    else e.2 = m.text := by
  induction ms with
  | nil => intro e he; cases he
  | cons m ms ih =>
    intro e he
    cases ms with
    | nil =>
      rw [stored] at he
      by_cases hhang : hangs m.text = true
      · rw [if_pos hhang] at he
        cases he
      · rw [if_neg hhang, List.mem_singleton] at he
        refine ⟨m, by simp, by rw [he], ?_⟩
        rw [if_neg hhang, he]
    | cons n ms =>
      rw [stored] at he
      rcases List.mem_cons.mp he with rfl | he
      · refine ⟨m, by simp, rfl, ?_⟩
        by_cases hhang : hangs m.text = true
        · rw [if_pos hhang, if_pos hhang]
          refine ⟨m.trail.1 ++ comma :: n.lead.1, ?_, by simp⟩
          intro hmem
          rcases List.mem_append.mp hmem with hmem | hmem
          · exact absurd (m.trail.2 _ hmem) (by decide)
          · rcases List.mem_cons.mp hmem with hmem | hmem
            · exact absurd hmem (by decide)
            · exact absurd (n.lead.2 _ hmem) (by decide)
        · rw [if_neg hhang, if_neg hhang]
      · obtain ⟨m', hm', hrest⟩ := ih e he
        exact ⟨m', List.mem_cons_of_mem m hm', hrest⟩

/-- A value that does not hang is stored. -/
theorem mem_stored (ms : List Member) : ∀ m ∈ ms, hangs m.text = false →
    (m.name.1, m.text) ∈ stored ms := by
  induction ms with
  | nil => intro m hm; cases hm
  | cons m' ms ih =>
    intro m hm hhang
    cases ms with
    | nil =>
      obtain rfl := List.mem_singleton.mp hm
      rw [stored, hhang]
      exact List.mem_singleton.mpr rfl
    | cons n ms =>
      rw [stored]
      rcases List.mem_cons.mp hm with rfl | hm
      · rw [hhang]
        exact List.mem_cons_self
      · exact List.mem_cons_of_mem _ (ih m hm hhang)

/-- Values that do not hang are all stored. -/
theorem stored_eq_map (ms : List Member) (h : ∀ m ∈ ms, hangs m.text = false) :
    stored ms = ms.map fun m => (m.name.1, m.text) := by
  induction ms with
  | nil => rfl
  | cons m ms ih =>
    have hm := h m (by simp)
    have hrest := ih fun n hn => h n (List.mem_cons_of_mem m hn)
    cases ms with
    | nil => rw [stored, hm]; rfl
    | cons n ms => rw [stored, hm, hrest]; rfl

theorem afterMember_last (ms : List Member) : ∃ u, afterMember ms = u ++ [rbrace] := by
  induction ms with
  | nil => exact ⟨[], rfl⟩
  | cons m ms ih =>
    obtain ⟨u, hu⟩ := ih
    refine ⟨comma :: (m.lead.1 ++ dquote :: (m.fromName ++ u)), ?_⟩
    rw [afterMember, hu]
    simp only [List.append_assoc, List.cons_append]

theorem dropWhile_blanks {ws t : Str} (hws : ∀ c ∈ ws, isBlankChar c = true)
    (ht : ∀ c ∈ t.head?, isBlankChar c = false) : (ws ++ t).dropWhile isBlankChar = t := by
  induction ws with
  | nil =>
    cases t with
    | nil => rfl
    | cons c t => exact List.dropWhile_cons_of_neg (by simpa using ht c rfl)
  | cons c ws ih =>
    rw [List.cons_append, List.dropWhile_cons_of_pos (hws c (by simp))]
    exact ih fun d hd => hws d (by simp [hd])

/-- Blanks around a text in braces are removed. -/
theorem trimBlank_eq (pre post : Blanks) (u : Str) :
    trimBlank (pre.1 ++ (lbrace :: (u ++ [rbrace]) ++ post.1)) = lbrace :: (u ++ [rbrace]) := by
  rw [trimBlank, dropWhile_blanks pre.2, List.reverse_append, dropWhile_blanks,
    List.reverse_reverse]
  · intro c hc
    exact post.2 c (List.mem_reverse.mp hc)
  · intro c hc
    simp only [List.reverse_cons, List.reverse_append, List.reverse_nil, List.nil_append,
      List.cons_append, List.head?_cons, Option.mem_def, Option.some.injEq] at hc
    rw [← hc]
    decide
  · intro c hc
    obtain rfl : lbrace = c := Option.some.inj hc
    decide

/-- **`parse` on the text of an object**: with different names, exactly the pairs in `stored`. -/
theorem parse_objectText (pre post : Blanks) (m : Member) (ms : List Member)
    (hread : ∀ e ∈ m :: ms, Readable e.text)
    (hnames : ((m :: ms).map fun m => m.name.1).Nodup) :
    parse (pre.1 ++ (objectText m ms ++ post.1)) = .ok (stored (m :: ms)) := by
  obtain ⟨u, hu⟩ := afterMember_last ms
  have htext : objectText m ms =
      lbrace :: ((m.lead.1 ++ dquote :: (m.fromName ++ u)) ++ [rbrace]) := by
    rw [objectText, hu]
    simp only [List.append_assoc, List.cons_append]
  have hrun : parseMachine.run Parser.start none (objectText m ms) =
      parseMachine.run (atKey [] []) none (m.fromName ++ afterMember ms) := by
    show parseMachine.run (atKey [] []) none _ = _
    rw [objectText, run_ignored [] [] none _ (.inr (.inr rfl)),
      run_blanks_key [] [] none _ m.lead.2,
      run_ignored [] [] none _ (.inl rfl)]
  have hnodup := hnames.sublist (stored_names (m :: ms))
  have hlast : (objectText m ms).getLast? = some rbrace := by
    rw [htext, ← List.cons_append, List.getLast?_concat]
  rw [htext, parse, trimBlank_eq]
  simp only
  rw [← htext, if_neg (by simp), if_neg (not_not_intro hlast), hrun, run_members ms m [] none hread,
    setAll_eq_append _ [] (by simpa using hnodup)]
  rfl

end Rojcpp.Json
