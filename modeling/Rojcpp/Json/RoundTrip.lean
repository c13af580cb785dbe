import Mathlib.Data.List.Permutation
import Rojcpp.Json.Layout
import Rojcpp.Json.Reflect

/-!
# `loads` after `dumps`

`dumps` writes strings into the text as they are, and three different functions take the text
apart again: `parse`, `unpacking_list` and `unescape_string`.  The theorem says for which values
of a registered struct type they give the value back.

A string must hold no quote and nothing `unescape_string` changes.  A string in a list may hold
quotes, but no comma and no bracket.  In a nested struct the braces inside strings count as
braces, so they must not close the struct early or leave it open.
-/

namespace Rojcpp.Json

open Rojcpp.Lib

/-! ### Struct types and their values -/

mutual

/-- The second value has the type of the first: for structs, the same name and the same fields. -/
def Value.SameType : Value → Value → Prop
  | .int _, x => ∃ n, x = .int n
  | .string _, x => ∃ s, x = .string s
  | .ints _, x => ∃ l, x = .ints l
  | .strings _, x => ∃ l, x = .strings l
  | .object className fields, x =>
    ∃ fields', x = .object className fields' ∧ fields.SameType fields'

@[inherit_doc Value.SameType] def Fields.SameType : Fields → Fields → Prop
  | .nil, x => x = .nil
  | .cons name value rest, x =>
    ∃ value' rest', x = .cons name value' rest' ∧ value.SameType value' ∧ rest.SameType rest'

end

/-- A brace. -/
def isBrace (c : UInt8) : Bool := c == lbrace || c == rbrace

mutual

/-- The names of types and fields are names as C++ has them: the fields of a struct have
different names, and no name holds a quote, a brace or what separates names in a text. -/
def Value.WellNamed : Value → Prop
  | .object className fields =>
    (∀ c ∈ className, c ≠ dquote ∧ c ≠ bslash ∧ isBrace c = false) ∧ fields.names.Nodup ∧
      fields.WellNamed
  | _ => True

@[inherit_doc Value.WellNamed] def Fields.WellNamed : Fields → Prop
  | .nil => True
  | .cons name value rest =>
    (∀ c ∈ name, isNameChar c = true ∧ isBrace c = false) ∧ value.WellNamed ∧ rest.WellNamed

end

/-- A check of a field name, letter by letter. -/
theorem fieldName_of_all {name : Str} (h : name.all (fun c => isNameChar c && !isBrace c) = true) :
    ∀ c ∈ name, isNameChar c = true ∧ isBrace c = false := by
  simpa using h

/-- A check of a class name, letter by letter. -/
theorem className_of_all {name : Str}
    (h : name.all (fun c => c != dquote && (c != bslash && !isBrace c)) = true) :
    ∀ c ∈ name, c ≠ dquote ∧ c ≠ bslash ∧ isBrace c = false := by
  simpa using h

/-- A registered struct type, by the object its default constructor makes. -/
structure StructType where
  className : Str
  fields : Fields
  wellNamed : (Value.object className fields).WellNamed

/-- The default-constructed object. -/
def StructType.object (T : StructType) : Value := .object T.className T.fields

/-- A value of a struct type. -/
structure StructType.Instance (T : StructType) where
  value : Value
  sameType : T.object.SameType value

/-! ### Values that survive -/

section
variable (o : MapOrder)

mutual

/-- The texts inside a value, nested structs in braces, in the order in which they are written. -/
def Value.contents : Value → Str
  | .int _ => []
  | .string s => s
  | .ints _ => []
  | .strings l => l.flatten
  | .object className fields =>
    lbrace :: ((o.entries ((classNameKey, className) :: fields.contents)).map Prod.snd).flatten ++
      [rbrace]

@[inherit_doc Value.contents] def Fields.contents : Fields → List (Str × Str)
  | .nil => []
  | .cons name value rest => (name, value.contents) :: rest.contents

end

/-- The braces inside a nested struct close only at its end: inside it, closing braces never
outnumber opening ones, and in the end there are as many of both. -/
def Value.Closed (x : Value) : Prop :=
  match x with
  | .object className fields =>
    nestDepth lbrace rbrace 1 ((o.entries ((classNameKey, className) :: fields.contents o)).map
      Prod.snd).flatten = some 1
  | _ => True

mutual

/-- Nothing in the value is mistaken for a part of the text around it. -/
def Value.Plain : Value → Prop
  | .int _ => True
  | .string s => dquote ∉ s ∧ unescapeString s = s
  | .ints _ => True
  | .strings l => ∀ s ∈ l, unescapeString s = s ∧ comma ∉ s ∧ lbracket ∉ s ∧ rbracket ∉ s
  | .object _ fields => classNameKey ∉ fields.names ∧ fields.Plain

@[inherit_doc Value.Plain] def Fields.Plain : Fields → Prop
  | .nil => True
  | .cons _ value rest => value.Plain ∧ value.Closed o ∧ rest.Plain

end

end

/-! ### Braces in the text of a value -/

/-- The braces of a text. -/
def bracesOf (s : Str) : Str := s.filter isBrace

@[simp] theorem bracesOf_nil : bracesOf [] = [] := rfl

@[simp] theorem bracesOf_append (s t : Str) : bracesOf (s ++ t) = bracesOf s ++ bracesOf t :=
  List.filter_append s t

theorem bracesOf_cons_of_not {c : UInt8} (h : isBrace c = false) (s : Str) :
    bracesOf (c :: s) = bracesOf s := List.filter_cons_of_neg (by simp [h])

theorem bracesOf_eq_nil {s : Str} (h : ∀ c ∈ s, isBrace c = false) : bracesOf s = [] :=
  List.filter_eq_nil_iff.mpr fun c hc => by simp [h c hc]

/-- Only braces matter for the depth. -/
theorem nestDepth_bracesOf (s : Str) : ∀ n,
    nestDepth lbrace rbrace n (bracesOf s) = nestDepth lbrace rbrace n s := by
  induction s with
  | nil => intro n; rfl
  | cons c s ih =>
    intro n
    by_cases hopen : c = lbrace
    · rw [hopen, show bracesOf (lbrace :: s) = lbrace :: bracesOf s from rfl, nestDepth,
        nestDepth, if_pos rfl, if_pos rfl, ih]
    · by_cases hclose : c = rbrace
      · have hne : ¬ rbrace = lbrace := by decide
        rw [hclose, show bracesOf (rbrace :: s) = rbrace :: bracesOf s from rfl, nestDepth,
          nestDepth, if_neg hne, if_neg hne, if_pos rfl, if_pos rfl, ih]
      · have hc : isBrace c = false := by
          rw [isBrace, beq_eq_false_iff_ne.mpr hopen, beq_eq_false_iff_ne.mpr hclose]
          rfl
        rw [bracesOf_cons_of_not hc, ih, nestDepth, if_neg hopen, if_neg hclose]

theorem isBrace_of_number {c : UInt8} (h : isNumberChar c = true) : isBrace c = false := by
  rw [isBrace, Bool.or_eq_false_iff, beq_eq_false_iff_ne, beq_eq_false_iff_ne]
  exact ⟨ne_of_isNumberChar h rfl, ne_of_isNumberChar h rfl⟩

theorem bracesOf_int (n : Int32) : bracesOf (toStringInt n) = [] :=
  bracesOf_eq_nil fun c hc => isBrace_of_number ((toStringInt_chars n).2 c hc)

theorem bracesOf_quoted (s : Str) : bracesOf (quoted s) = bracesOf s := by
  have hquote : bracesOf [dquote] = [] := rfl
  rw [quoted, List.cons_append, bracesOf_cons_of_not rfl, bracesOf_append, hquote, List.append_nil]

/-- The braces of a list's text are those of its elements. -/
theorem bracesOf_listText (l : List Str) : bracesOf (listText l) = (l.map bracesOf).flatten := by
  have hcomma : bracesOf [comma] = [] := rfl
  have hclose : bracesOf [rbracket] = [] := rfl
  have hcommas : bracesOf ([comma].intercalate l) = (l.map bracesOf).flatten := by
    induction l with
    | nil => rfl
    | cons x l ih =>
      cases l with
      | nil => rw [List.intercalate_singleton]; simp
      | cons y l =>
        rw [List.intercalate_cons_cons, bracesOf_append, bracesOf_append, ih, hcomma,
          List.append_nil]
        rfl
  rw [listText, bracesOf_cons_of_not rfl, bracesOf_append, hcommas, hclose, List.append_nil]

/-- The braces of the entries of an object are those of its values. -/
theorem bracesOf_entriesText (es : List (Str × Str))
    (h : ∀ e ∈ es, ∀ c ∈ e.1, isBrace c = false) :
    bracesOf (entriesText es) = (es.map fun e => bracesOf e.2).flatten := by
  have hblank : bracesOf [32] = [] := rfl
  induction es with
  | nil => rfl
  | cons e es ih =>
    have hname : bracesOf e.1 = [] := bracesOf_eq_nil (h e (by simp))
    cases es with
    | nil =>
      rw [entriesText, bracesOf_cons_of_not rfl, bracesOf_append, hname,
        bracesOf_cons_of_not rfl, bracesOf_cons_of_not rfl, bracesOf_append, hblank]
      simp
    | cons e' es =>
      rw [entriesText, bracesOf_cons_of_not rfl, bracesOf_append, hname,
        bracesOf_cons_of_not rfl, bracesOf_cons_of_not rfl, bracesOf_append,
        bracesOf_cons_of_not rfl, bracesOf_cons_of_not rfl,
        ih fun x hx => h x (List.mem_cons_of_mem e hx)]
      · simp
      · exact List.cons_ne_nil e' es

/-! ### Fields as lists of pairs -/

section
variable (o : MapOrder)

/-- The members of a struct's text: the name of the type, and then the fields. -/
def memberValues (className : Str) (fields : Fields) : List (Str × Value) :=
  (classNameKey, .string className) :: fields.toList

theorem Fields.toStrings_eq : ∀ fields : Fields,
    fields.toStrings o = fields.toList.map fun e => (e.1, e.2.toString o)
  | .nil => by rw [toStrings]; rfl
  | .cons name value rest => by rw [toStrings, toStrings_eq rest]; rfl

theorem Fields.contents_eq : ∀ fields : Fields,
    fields.contents o = fields.toList.map fun e => (e.1, e.2.contents o)
  | .nil => by rw [contents]; rfl
  | .cons name value rest => by rw [contents, contents_eq rest]; rfl

theorem Fields.get_eq_some : ∀ (fields : Fields) (k : Str) (v : Value), fields.get k = some v →
    (k, v) ∈ fields.toList
  | .nil, _, _, h => by cases h
  | .cons name value rest, k, v, h => by
    rw [get] at h
    by_cases hk : k = name
    · rw [if_pos hk] at h
      cases h
      rw [hk]
      exact List.mem_cons_self
    · rw [if_neg hk] at h
      exact List.mem_cons_of_mem _ (get_eq_some rest k v h)

theorem Fields.get_of_mem : ∀ (fields : Fields) (k : Str) (v : Value), fields.names.Nodup →
    (k, v) ∈ fields.toList → fields.get k = some v
  | .nil, _, _, _, h => by cases h
  | .cons name value rest, k, v, hnodup, h => by
    rw [names_cons, List.nodup_cons] at hnodup
    rw [get]
    rcases List.mem_cons.mp h with heq | hin
    · cases heq
      rw [if_pos rfl]
    · have hk : k ≠ name := by
        rintro rfl
        exact hnodup.1 (List.mem_map.mpr ⟨(k, v), hin, rfl⟩)
      rw [if_neg hk]
      exact get_of_mem rest k v hnodup.2 hin

variable {className : Str} {fields : Fields} (hnodup : fields.names.Nodup)
  (hkey : classNameKey ∉ fields.names)

include hnodup hkey in
theorem memberValues_nodup : ((memberValues className fields).map Prod.fst).Nodup :=
  List.nodup_cons.mpr ⟨hkey, hnodup⟩

include hnodup hkey in
/-- The entries `dumps` writes for a struct, in the map's order. -/
theorem entries_toStrings :
    o.entries (Config.setAll [(classNameKey, quoted className)] (fields.toStrings o)) =
      (o.entries (memberValues className fields)).map fun e => (e.1, e.2.toString o) := by
  have hall : Config.setAll [(classNameKey, quoted className)] (fields.toStrings o) =
      (memberValues className fields).map fun e => (e.1, e.2.toString o) := by
    have hnames : (fields.toStrings o).map Prod.fst = fields.names := by
      rw [fields.toStrings_eq, List.map_map]
      rfl
    rw [setAll_eq_append]
    · rw [fields.toStrings_eq, memberValues, List.map_cons, Value.toString]
      rfl
    · rw [hnames]
      exact List.nodup_cons.mpr ⟨hkey, hnodup⟩
  rw [hall]
  exact o.entries_map (fun (v : Value) => v.toString o) _

theorem entries_contents :
    o.entries ((classNameKey, className) :: fields.contents o) =
      (o.entries (memberValues className fields)).map fun e => (e.1, e.2.contents o) := by
  have hall : (classNameKey, className) :: fields.contents o =
      (memberValues className fields).map fun e => (e.1, e.2.contents o) := by
    rw [fields.contents_eq, memberValues, List.map_cons, Value.contents]
  rw [hall]
  exact o.entries_map (fun (v : Value) => v.contents o) _

/-- Every entry of a struct's map is the name of its type or one of its fields. -/
theorem mem_entries_iff (hkey : classNameKey ∉ fields.names) (hnodup : fields.names.Nodup)
    (e : Str × Value) : e ∈ o.entries (memberValues className fields) ↔
      e = (classNameKey, .string className) ∨ e ∈ fields.toList := by
  rw [(o.entries_perm (memberValues_nodup hnodup hkey)).mem_iff, memberValues, List.mem_cons]

/-- The braces of a struct's entries, from those of its values. -/
theorem bracesOf_entries (es : List (Str × Value))
    (h : ∀ e ∈ es, (∀ c ∈ e.1, isBrace c = false) ∧
      bracesOf (e.2.toString o) = bracesOf (e.2.contents o)) :
    bracesOf (entriesText (es.map fun e => (e.1, e.2.toString o))) =
      bracesOf ((es.map fun e => (e.1, e.2.contents o)).map Prod.snd).flatten := by
  rw [bracesOf_entriesText, List.map_map, List.map_map, bracesOf, List.filter_flatten, List.map_map]
  · congr 1
    exact List.map_congr_left fun e he => (h e he).2
  · intro e he
    obtain ⟨e', he', rfl⟩ := List.mem_map.mp he
    exact (h e' he').1

/-- The name of the type, as an entry. -/
theorem bracesOf_className (className : Str) :
    (∀ c ∈ classNameKey, isBrace c = false) ∧
      bracesOf ((Value.string className).toString o) =
        bracesOf ((Value.string className).contents o) := by
  have hany : classNameKey.any isBrace = false := rfl
  rw [Value.toString, Value.contents, bracesOf_quoted]
  exact ⟨by simpa using hany, rfl⟩

mutual

/-- The braces in the text of a value are those of the texts inside it. -/
theorem Value.bracesOf_toString : ∀ x : Value, x.WellNamed → x.Plain o →
    bracesOf (x.toString o) = bracesOf (x.contents o)
  | .int n, _, _ => by rw [Value.toString, Value.contents, bracesOf_int]; rfl
  | .string s, _, _ => by rw [Value.toString, Value.contents, bracesOf_quoted]
  | .ints l, _, _ => by
    rw [Value.toString, Value.contents, bracesOf_listText, List.map_map]
    have hnone : l.map (bracesOf ∘ toStringInt) = l.map fun _ => [] :=
      List.map_congr_left fun n _ => bracesOf_int n
    rw [hnone]
    simp
  | .strings l, _, _ => by
    rw [Value.toString, Value.contents, bracesOf_listText, List.map_map]
    have hsame : l.map (bracesOf ∘ quoted) = l.map bracesOf :=
      List.map_congr_left fun s _ => bracesOf_quoted s
    rw [hsame, bracesOf, List.filter_flatten]
    rfl
  | .object className fields, hnamed, hplain => by
    rw [Value.WellNamed] at hnamed
    rw [Value.Plain] at hplain
    have hfields := fields.bracesOf_toString hnamed.2.2 hplain.2
    have hend : bracesOf [rbrace, 32] = bracesOf [rbrace] := rfl
    rw [Value.toString, Value.contents, entries_toStrings o hnamed.2.1 hplain.1, entries_contents,
      serializedToString]
    show lbrace :: bracesOf (_ ++ _) = lbrace :: bracesOf (_ ++ _)
    rw [bracesOf_append, bracesOf_append, hend, bracesOf_entries o]
    intro e he
    rcases (mem_entries_iff o hplain.1 hnamed.2.1 e).mp he with rfl | he
    · exact bracesOf_className o className
    · exact hfields e he

theorem Fields.bracesOf_toString : ∀ fields : Fields, fields.WellNamed → fields.Plain o →
    ∀ e ∈ fields.toList, (∀ c ∈ e.1, isBrace c = false) ∧
      bracesOf (e.2.toString o) = bracesOf (e.2.contents o)
  | .nil, _, _ => by intro e he; cases he
  | .cons name value rest, hnamed, hplain => by
    rw [Fields.WellNamed] at hnamed
    rw [Fields.Plain] at hplain
    intro e he
    rcases List.mem_cons.mp he with rfl | he
    · exact ⟨fun c hc => (hnamed.1 c hc).2, value.bracesOf_toString hnamed.2.1 hplain.1⟩
    · exact rest.bracesOf_toString hnamed.2.2 hplain.2.2 e he

end

/-! ### Values are delimited -/

/-- A value's text without the blank `serialized_to_string` puts behind an object. -/
def Value.text (x : Value) : Str :=
  match x with
  | .object className fields => lbrace :: 32 :: (entriesText
      ((o.entries (memberValues className fields)).map fun e => (e.1, e.2.toString o)) ++ [rbrace])
  | .int n => (Value.int n).toString o
  | .string s => (Value.string s).toString o
  | .ints l => (Value.ints l).toString o
  | .strings l => (Value.strings l).toString o

/-- That blank. -/
def Value.blank (x : Value) : Blanks :=
  match x with
  | .object _ _ => oneBlank
  | .int _ => noBlanks
  | .string _ => noBlanks
  | .ints _ => noBlanks
  | .strings _ => noBlanks

end

/-- What a character behind a backslash stands for is at most itself and the backslash. -/
theorem length_unescaped (c : UInt8) :
    (if c = 'n' then [10] else if c = 'r' then [13] else if c = 't' then [9]
      else if c = dquote then [dquote] else if c = '\'' then [39]
      else if c = bslash then [bslash] else [bslash, c] : Str).length ≤ 2 := by
  split_ifs <;> simp

/-- The length `unescape_string` keeps: one character for each, and one more while a backslash is
pending; a backslash at the end is lost. -/
theorem length_unescapeLoop (s : Str) : ∀ escape : Bool,
    (unescapeLoop escape s).length ≤ s.length + escape.toNat ∧
      (s.getLast? = some bslash → (unescapeLoop escape s).length < s.length + escape.toNat) := by
  induction s with
  | nil =>
    intro escape
    refine ⟨by simp [unescapeLoop], fun h => ?_⟩
    cases h
  | cons c s ih =>
    intro escape
    obtain ⟨hle, hlt⟩ := ih false
    obtain ⟨hle', hlt'⟩ := ih true
    have hlast : (c :: s).getLast? = some bslash →
        s.getLast? = some bslash ∨ (s = [] ∧ c = bslash) := by
      intro h
      cases s with
      | nil => exact .inr ⟨rfl, Option.some.inj h⟩
      | cons d s => exact .inl h
    simp only [Bool.toNat_false, Bool.toNat_true, Nat.add_zero] at hle hlt hle' hlt'
    rw [unescapeLoop, List.length_cons]
    cases escape with
    | true =>
      rw [if_pos rfl, List.length_append, Bool.toNat_true]
      have htwo := length_unescaped c
      refine ⟨by omega, fun h => ?_⟩
      rcases hlast h with h | ⟨rfl, rfl⟩
      · have := hlt h
        omega
      · show 1 + 0 < 0 + 1 + 1
        omega
    | false =>
      rw [if_neg Bool.false_ne_true, Bool.toNat_false]
      by_cases hc : c = bslash
      · rw [if_pos hc]
        refine ⟨by omega, fun h => ?_⟩
        rcases hlast h with h | ⟨rfl, -⟩
        · have := hlt' h
          omega
        · show 0 < 0 + 1 + 0
          omega
      · rw [if_neg hc, List.length_cons]
        refine ⟨by omega, fun h => ?_⟩
        rcases hlast h with h | ⟨-, h⟩
        · have := hlt h
          omega
        · exact absurd h hc

/-- A string `unescape_string` leaves alone does not end with a backslash. -/
theorem getLast_of_unescape_eq {s : Str} (h : unescapeString s = s) : s.getLast? ≠ some bslash := by
  intro hlast
  have hlt := (length_unescapeLoop s false).2 hlast
  rw [show unescapeLoop false s = s from h] at hlt
  simp at hlt

theorem hangs_of_getLast (s : Str) {c : UInt8} (h : c ≠ dquote) : hangs (s ++ [c]) = false := by
  rw [hangs, List.getLast?_concat, beq_eq_false_iff_ne.mpr (fun heq => h (Option.some.inj heq)),
    Bool.false_and]

/-- The text of a list whose elements hold no bracket. -/
theorem delimited_list {l : List Str} (h : ∀ e ∈ l, lbracket ∉ e ∧ rbracket ∉ e) :
    Delimited (listText l) ∧ hangs (listText l) = false := by
  have hbody : ∀ c ∈ [comma].intercalate l, c ≠ lbracket ∧ c ≠ rbracket := by
    induction l with
    | nil => intro c hc; cases hc
    | cons x l ih =>
      have hx := h x (by simp)
      have hxc : ∀ c ∈ x, c ≠ lbracket ∧ c ≠ rbracket := fun c hc =>
        ⟨by rintro rfl; exact hx.1 hc, by rintro rfl; exact hx.2 hc⟩
      cases l with
      | nil => rw [List.intercalate_singleton]; exact hxc
      | cons y l =>
        rw [List.intercalate_cons_cons]
        intro c hc
        rcases List.mem_append.mp hc with hc | hc
        · rcases List.mem_append.mp hc with hc | hc
          · exact hxc c hc
          · rw [List.mem_singleton.mp hc]
            decide
        · exact ih (fun e he => h e (List.mem_cons_of_mem x he)) c hc
  exact ⟨delimited_iterable hbody,
    hangs_of_getLast (lbracket :: _) (show rbracket ≠ dquote by decide)⟩

/-- **The machine stores the text of a plain value as it is.** -/
theorem Value.delimited_text (o : MapOrder) (x : Value) (hnamed : x.WellNamed) (hplain : x.Plain o)
    (hclosed : x.Closed o) : Delimited (x.text o) ∧ hangs (x.text o) = false := by
  cases x with
  | int n =>
    have hread := readable_int n
    rw [Readable, hangs_int] at hread
    rw [text, toString]
    exact ⟨hread, hangs_int n⟩
  | string s =>
    rw [Plain] at hplain
    have hlast := getLast_of_unescape_eq hplain.2
    rw [text, toString, hangs_quoted]
    exact ⟨delimited_string (guarded_of_no_quote hplain.1 _) hlast, beq_eq_false_iff_ne.mpr hlast⟩
  | ints l =>
    rw [text, toString]
    apply delimited_list
    intro e he
    obtain ⟨n, -, rfl⟩ := List.mem_map.mp he
    have hchars := (toStringInt_chars n).2
    exact ⟨fun h => absurd (hchars _ h) (by decide), fun h => absurd (hchars _ h) (by decide)⟩
  | strings l =>
    rw [Plain] at hplain
    rw [text, toString]
    apply delimited_list
    intro e he
    obtain ⟨s, hs, rfl⟩ := List.mem_map.mp he
    obtain ⟨-, -, hopen, hclose⟩ := hplain s hs
    have hopen' : lbracket ≠ dquote := by decide
    have hclose' : rbracket ≠ dquote := by decide
    simp only [quoted, List.mem_append, List.mem_cons, List.not_mem_nil, or_false, not_or]
    exact ⟨⟨⟨hopen', hopen⟩, hopen'⟩, ⟨hclose', hclose⟩, hclose'⟩
  | object className fields =>
    rw [WellNamed] at hnamed
    rw [Plain] at hplain
    have hfields := fields.bracesOf_toString o hnamed.2.2 hplain.2
    have hdepth : nestDepth lbrace rbrace 1 (32 :: entriesText ((o.entries
        (memberValues className fields)).map fun e => (e.1, e.2.toString o))) = some 1 := by
      rw [← nestDepth_bracesOf, bracesOf_cons_of_not rfl, bracesOf_entries o, nestDepth_bracesOf]
      · rw [Closed, entries_contents] at hclosed
        exact hclosed
      · intro e he
        rcases (mem_entries_iff o hplain.1 hnamed.2.1 e).mp he with rfl | he
        · exact bracesOf_className o className
        · exact hfields e he
    rw [text]
    refine ⟨delimited_struct hdepth, ?_⟩
    show hangs ((lbrace :: 32 :: entriesText _) ++ [rbrace]) = false
    exact hangs_of_getLast _ (by decide)

/-! ### The text of a struct -/

theorem Value.toString_eq (o : MapOrder) (x : Value) (hnamed : x.WellNamed) (hplain : x.Plain o) :
    x.toString o = x.text o ++ x.blank.1 := by
  cases x with
  | int n => rw [text, blank, noBlanks_val, List.append_nil]
  | string s => rw [text, blank, noBlanks_val, List.append_nil]
  | ints l => rw [text, blank, noBlanks_val, List.append_nil]
  | strings l => rw [text, blank, noBlanks_val, List.append_nil]
  | object className fields =>
    rw [WellNamed] at hnamed
    rw [Plain] at hplain
    rw [toString, entries_toStrings o hnamed.2.1 hplain.1, serializedToString, text, blank]
    simp only [oneBlank_val, List.append_assoc, List.cons_append, List.nil_append]

/-- What a struct's map holds: well named and plain values, closed if they are structs. -/
def GoodEntry (o : MapOrder) (e : Str × Value) : Prop :=
  (∀ c ∈ e.1, isNameChar c = true) ∧ e.2.WellNamed ∧ e.2.Plain o ∧ e.2.Closed o

/-- The text of a struct, seen as members with white space between the tokens. -/
theorem exists_members (o : MapOrder) (es : List (Str × Value)) : ∀ e : Str × Value,
    (∀ x ∈ e :: es, GoodEntry o x) → ∃ m ms, m.lead.1 = [32] ∧
      dquote :: (m.fromName ++ afterMember ms) =
        entriesText ((e :: es).map fun e => (e.1, e.2.toString o)) ++ [rbrace] ∧
      ((m :: ms).map fun m => (m.name.1, m.text)) = (e :: es).map fun e => (e.1, e.2.text o) := by
  induction es with
  | nil =>
    intro e h
    obtain ⟨hname, hnamed, hplain, -⟩ := h e (by simp)
    have htrail : ∀ c ∈ e.2.blank.1 ++ [32], isBlankChar c = true := by
      intro c hc
      rcases List.mem_append.mp hc with hc | hc
      · exact e.2.blank.2 c hc
      · exact oneBlank.2 c hc
    refine ⟨⟨⟨e.1, hname⟩, e.2.text o, oneBlank, noBlanks, noBlanks,
      ⟨e.2.blank.1 ++ [32], htrail⟩⟩, [], rfl, ?_, rfl⟩
    rw [List.map_singleton, entriesText, e.2.toString_eq o hnamed hplain, Member.fromName,
      afterMember]
    simp only [noBlanks_val, List.append_assoc, List.cons_append, List.nil_append]
  | cons e' es ih =>
    intro e h
    obtain ⟨hname, hnamed, hplain, -⟩ := h e (by simp)
    obtain ⟨m, ms, hlead, htext, hmap⟩ := ih e' fun x hx => h x (List.mem_cons_of_mem e hx)
    refine ⟨⟨⟨e.1, hname⟩, e.2.text o, oneBlank, noBlanks, noBlanks, e.2.blank⟩,
      m :: ms, rfl, ?_, ?_⟩
    · have hentries : entriesText ((e :: e' :: es).map fun e => (e.1, e.2.toString o)) =
          dquote :: (e.1 ++ dquote :: colon :: (e.2.toString o ++ comma :: 32 ::
            entriesText ((e' :: es).map fun e => (e.1, e.2.toString o)))) := rfl
      rw [hentries, e.2.toString_eq o hnamed hplain, Member.fromName, afterMember, hlead, htext]
      simp only [noBlanks_val, List.append_assoc, List.cons_append, List.nil_append]
    · rw [List.map_cons, hmap]
      rfl

theorem Fields.goodEntry (o : MapOrder) : ∀ fields : Fields, fields.WellNamed → fields.Plain o →
    ∀ e ∈ fields.toList, GoodEntry o e
  | .nil, _, _ => by intro e he; cases he
  | .cons name value rest, hnamed, hplain => by
    rw [WellNamed] at hnamed
    rw [Plain] at hplain
    intro e he
    rcases List.mem_cons.mp he with rfl | he
    · exact ⟨fun c hc => (hnamed.1 c hc).1, hnamed.2.1, hplain.1, hplain.2.1⟩
    · exact goodEntry o rest hnamed.2.2 hplain.2.2 e he

section
variable (o : MapOrder) {className : Str} {fields : Fields}
  (hnamed : (Value.object className fields).WellNamed)
  (hplain : (Value.object className fields).Plain o)
include hnamed hplain

theorem goodEntry_of_mem : ∀ e ∈ o.entries (memberValues className fields), GoodEntry o e := by
  rw [Value.WellNamed] at hnamed
  rw [Value.Plain] at hplain
  intro e he
  rcases (mem_entries_iff o hplain.1 hnamed.2.1 e).mp he with rfl | he
  · have hquote : dquote ∉ className := fun h => (hnamed.1 _ h).1 rfl
    have hslash : bslash ∉ className := fun h => (hnamed.1 _ h).2.1 rfl
    have hname : ∀ c ∈ classNameKey, isNameChar c = true := List.all_eq_true.mp rfl
    refine ⟨hname, ?_, ?_, trivial⟩
    · rw [Value.WellNamed]
      · trivial
      · intro _ _ h
        cases h
    · rw [Value.Plain]
      exact ⟨hquote, unescape_of_no_bslash hslash⟩
  · exact fields.goodEntry o hnamed.2.2 hplain.2 e he

/-- **`parse` on the text of a plain struct** finds the texts of its fields. -/
theorem parse_text (post : Blanks) :
    parse ((Value.object className fields).text o ++ post.1) =
      .ok ((o.entries (memberValues className fields)).map fun e => (e.1, e.2.text o)) := by
  have hgood := goodEntry_of_mem o hnamed hplain
  have hnodup : ((o.entries (memberValues className fields)).map Prod.fst).Nodup := by
    rw [Value.WellNamed] at hnamed
    rw [Value.Plain] at hplain
    have hkeys : ((memberValues className fields).map Prod.fst).Nodup :=
      memberValues_nodup hnamed.2.1 hplain.1
    exact ((o.entries_perm hkeys).map Prod.fst).nodup_iff.mpr hkeys
  have hne :
      (classNameKey, Value.string className) ∈ o.entries (memberValues className fields) := by
    rw [Value.WellNamed] at hnamed
    rw [Value.Plain] at hplain
    exact (mem_entries_iff o hplain.1 hnamed.2.1 _).mpr (.inl rfl)
  rw [Value.text]
  generalize o.entries (memberValues className fields) = es at hgood hnodup hne ⊢
  cases es with
  | nil => cases hne
  | cons e es =>
    obtain ⟨m, ms, hlead, htext, hmap⟩ := exists_members o es e hgood
    have hobject : lbrace :: 32 :: (entriesText ((e :: es).map fun e => (e.1, e.2.toString o)) ++
        [rbrace]) = objectText m ms := by
      rw [objectText, hlead, ← htext]
      rfl
    have hdelimited : ∀ n ∈ m :: ms, Delimited n.text ∧ hangs n.text = false := by
      intro n hn
      have hmem : (n.name.1, n.text) ∈ (e :: es).map fun e => (e.1, e.2.text o) := by
        rw [← hmap]
        exact List.mem_map.mpr ⟨n, hn, rfl⟩
      obtain ⟨x, hx, heq⟩ := List.mem_map.mp hmem
      obtain ⟨-, hnamed, hplain, hclosed⟩ := hgood x hx
      rw [← show x.2.text o = n.text from congrArg Prod.snd heq]
      exact x.2.delimited_text o hnamed hplain hclosed
    have hnames : ((m :: ms).map fun m => m.name.1).Nodup := by
      have hfst := congrArg (List.map Prod.fst) hmap
      rw [List.map_map, List.map_map] at hfst
      rw [show (m :: ms).map (fun m => m.name.1) = _ from hfst]
      exact hnodup
    have hparse := parse_objectText noBlanks post m ms (fun n hn => by
      rw [Readable, (hdelimited n hn).2]
      exact (hdelimited n hn).1) hnames
    rw [hobject, ← hmap, ← stored_eq_map (m :: ms) fun n hn => (hdelimited n hn).2]
    exact hparse

/-- A struct is assigned from its text once each of its fields is. -/
theorem assign_object (junk : Int32) (obj : Fields) (hnames : obj.names = fields.names)
    (hset : ∀ k v, fields.get k = some v → obj.assign o junk k (v.text o) = some (some v))
    (post : Blanks) :
    (Value.object className obj).assign o junk
        ((Value.object className fields).text o ++ post.1) =
      some (.object className fields, false) := by
  have hparse := parse_text o hnamed hplain post
  rw [Value.WellNamed] at hnamed
  rw [Value.Plain] at hplain
  have hmem : ∀ e : Str × Value, e ∈ o.entries (memberValues className fields) ↔
      e = (classNameKey, .string className) ∨ e ∈ fields.toList :=
    mem_entries_iff o hplain.1 hnamed.2.1
  generalize hconf : ((o.entries (memberValues className fields)).map
    fun e => (e.1, e.2.text o)) = conf at hparse
  have hkeys : (conf.map Prod.fst).Nodup := by
    have hkeys : ((memberValues className fields).map Prod.fst).Nodup :=
      memberValues_nodup hnamed.2.1 hplain.1
    rw [← hconf, List.map_map]
    exact ((o.entries_perm hkeys).map Prod.fst).nodup_iff.mpr hkeys
  have hperm := o.entries_perm hkeys
  have hloop := configToObject_eq (fun key s => obj.assign o junk key s) fields hnamed.2.1 hplain.1
    (o.entries conf) obj hnames ?_ ?_
  · rw [Value.assign, hparse]
    simp only
    rw [hloop]
    rfl
  · intro e he hne
    have hin := hperm.mem_iff.mp he
    rw [← hconf] at hin
    obtain ⟨x, hx, rfl⟩ := List.mem_map.mp hin
    rcases (hmem x).mp hx with rfl | hx
    · exact absurd rfl hne
    · have hget := fields.get_of_mem x.1 x.2 hnamed.2.1 hx
      refine ⟨List.mem_map.mpr ⟨x, hx, rfl⟩, ?_⟩
      show obj.assign o junk x.1 (x.2.text o) = some (fields.get x.1)
      rw [hset x.1 x.2 hget, hget]
  · intro k hk hnot
    obtain ⟨v, hv⟩ := fields.get_isSome k hk
    have hin : (k, v) ∈ o.entries (memberValues className fields) :=
      (hmem (k, v)).mpr (.inr (fields.get_eq_some k v hv))
    refine absurd (List.mem_map.mpr ⟨(k, v.text o), hperm.mem_iff.mpr ?_, rfl⟩) hnot
    rw [← hconf]
    exact List.mem_map.mpr ⟨(k, v), hin, rfl⟩

end

/-! ### Reading back -/

theorem Fields.SameType.names_eq : ∀ gs fs : Fields, gs.SameType fs → gs.names = fs.names
  | .nil, fs, h => by
    rw [Fields.SameType] at h
    rw [h]
  | .cons name value gs, fs, h => by
    rw [Fields.SameType] at h
    obtain ⟨value', rest', rfl, -, hrest⟩ := h
    rw [Fields.names_cons, Fields.names_cons, names_eq gs rest' hrest]

theorem mapM_readString (l : List Str) (h : ∀ s ∈ l, unescapeString s = s) :
    (l.map quoted).mapM readString = some l := by
  induction l with
  | nil => rfl
  | cons s l ih =>
    rw [List.map_cons, List.mapM_cons, readString_quoted, h s (by simp),
      ih fun t ht => h t (List.mem_cons_of_mem s ht)]
    rfl

/-- The texts of numbers come back from `unpacking_list`. -/
theorem unpackable_int (n : Int32) : Unpackable (toStringInt n) := by
  obtain ⟨hne, hchars⟩ := toStringInt_chars n
  obtain ⟨c, u, hcu⟩ := List.exists_cons_of_ne_nil hne
  have hc := hchars c (by rw [hcu]; exact List.mem_cons_self)
  refine ⟨⟨c, u, hcu, ne_of_isNumberChar hc rfl, ne_of_isNumberChar hc rfl,
    ne_of_isNumberChar hc rfl⟩, fun h => ?_, fun h => ?_⟩
  · exact absurd (hchars _ h) (by decide)
  · exact absurd (hchars _ h) (by decide)

/-- So do strings in quotes without a comma and a closing bracket. -/
theorem unpackable_quoted {s : Str} (hcomma : comma ∉ s) (hclose : rbracket ∉ s) :
    Unpackable (quoted s) := by
  have h1 : comma ≠ dquote := by decide
  have h2 : rbracket ≠ dquote := by decide
  refine ⟨⟨dquote, s ++ [dquote], rfl, by decide⟩, ?_, ?_⟩
  · simp only [quoted, List.mem_append, List.mem_cons, List.not_mem_nil, or_false, not_or]
    exact ⟨⟨h1, hcomma⟩, h1⟩
  · simp only [quoted, List.mem_append, List.mem_cons, List.not_mem_nil, or_false, not_or]
    exact ⟨⟨h2, hclose⟩, h2⟩

section
variable (o : MapOrder) (junk : Int32)

mutual

/-- **A plain value is read back from its text**, into any object of its type. -/
theorem Value.assign_text : ∀ obj x : Value, obj.SameType x → x.WellNamed → x.Plain o →
    obj.assign o junk (x.text o) = some (x, false)
  | .int _, x, hsame, _, _ => by
    rw [Value.SameType] at hsame
    obtain ⟨n, rfl⟩ := hsame
    rw [Value.text, Value.toString, Value.assign, readInt_toStringInt]
  | .string _, x, hsame, _, hplain => by
    rw [Value.SameType] at hsame
    obtain ⟨s, rfl⟩ := hsame
    rw [Value.Plain] at hplain
    rw [Value.text, Value.toString, Value.assign, readString_quoted, hplain.2]
    rfl
  | .ints _, x, hsame, _, _ => by
    rw [Value.SameType] at hsame
    obtain ⟨l, rfl⟩ := hsame
    have hread : (l.map toStringInt).map (readInt junk) = l := by
      rw [List.map_map]
      exact List.map_id'' (fun n => readInt_toStringInt junk n) l
    rw [Value.text, Value.toString, Value.assign, unpackingList_listText, hread]
    intro e he
    obtain ⟨n, -, rfl⟩ := List.mem_map.mp he
    exact unpackable_int n
  | .strings _, x, hsame, _, hplain => by
    rw [Value.SameType] at hsame
    obtain ⟨l, rfl⟩ := hsame
    rw [Value.Plain] at hplain
    rw [Value.text, Value.toString, Value.assign, unpackingList_listText,
      mapM_readString l fun s hs => (hplain s hs).1]
    · rfl
    · intro e he
      obtain ⟨s, hs, rfl⟩ := List.mem_map.mp he
      exact unpackable_quoted (hplain s hs).2.1 (hplain s hs).2.2.2
  | .object className obj, x, hsame, hnamed, hplain => by
    rw [Value.SameType] at hsame
    obtain ⟨fields, rfl, hsame⟩ := hsame
    have hassign := assign_object o hnamed hplain junk obj
      (Fields.SameType.names_eq obj fields hsame)
    rw [Value.WellNamed] at hnamed
    rw [Value.Plain] at hplain
    have htext := hassign (obj.assign_text fields hsame hnamed.2.2 hplain.2) noBlanks
    rw [noBlanks_val, List.append_nil] at htext
    exact htext

theorem Fields.assign_text : ∀ obj fields : Fields, obj.SameType fields → fields.WellNamed →
    fields.Plain o → ∀ k v, fields.get k = some v → obj.assign o junk k (v.text o) = some (some v)
  | .nil, fields, hsame, _, _ => by
    rw [Fields.SameType] at hsame
    intro k v h
    rw [hsame] at h
    cases h
  | .cons name value rest, fields, hsame, hnamed, hplain => by
    rw [Fields.SameType] at hsame
    obtain ⟨value', rest', rfl, hvalue, hrest⟩ := hsame
    rw [Fields.WellNamed] at hnamed
    rw [Fields.Plain] at hplain
    intro k v hget
    rw [Fields.get] at hget
    rw [Fields.assign]
    by_cases hk : k = name
    · rw [if_pos hk] at hget ⊢
      cases hget
      rw [value.assign_text value' hvalue hnamed.2.1 hplain.1]
      rfl
    · rw [if_neg hk] at hget ⊢
      exact rest.assign_text rest' hrest hnamed.2.2 hplain.2.2 k v hget

end

end

mutual

/-- The names belong to the type. -/
theorem Value.wellNamed_of_sameType : ∀ obj x : Value, obj.SameType x → obj.WellNamed → x.WellNamed
  | .int _, x, hsame, _ => by
    rw [Value.SameType] at hsame
    obtain ⟨n, rfl⟩ := hsame
    trivial
  | .string _, x, hsame, _ => by
    rw [Value.SameType] at hsame
    obtain ⟨s, rfl⟩ := hsame
    trivial
  | .ints _, x, hsame, _ => by
    rw [Value.SameType] at hsame
    obtain ⟨l, rfl⟩ := hsame
    trivial
  | .strings _, x, hsame, _ => by
    rw [Value.SameType] at hsame
    obtain ⟨l, rfl⟩ := hsame
    trivial
  | .object className obj, x, hsame, hnamed => by
    rw [Value.SameType] at hsame
    obtain ⟨fields, rfl, hsame⟩ := hsame
    rw [Value.WellNamed] at hnamed ⊢
    refine ⟨hnamed.1, ?_, obj.wellNamed_of_sameType fields hsame hnamed.2.2⟩
    rw [← Fields.SameType.names_eq obj fields hsame]
    exact hnamed.2.1

theorem Fields.wellNamed_of_sameType : ∀ obj fields : Fields, obj.SameType fields →
    obj.WellNamed → fields.WellNamed
  | .nil, fields, hsame, hnamed => by
    rw [Fields.SameType] at hsame
    rw [hsame]
    exact hnamed
  | .cons name value rest, fields, hsame, hnamed => by
    rw [Fields.SameType] at hsame
    obtain ⟨value', rest', rfl, hvalue, hrest⟩ := hsame
    rw [Fields.WellNamed] at hnamed ⊢
    exact ⟨hnamed.1, value.wellNamed_of_sameType value' hvalue hnamed.2.1,
      rest.wellNamed_of_sameType rest' hrest hnamed.2.2⟩

end

/-- **`loads` gives back what `dumps` has written**, for every plain value of a registered struct
type, for every order of the maps and whatever the object's numbers hold before. -/
theorem loads_dumps (T : StructType) (o : MapOrder) (junk : Int32) (x : T.Instance)
    (hplain : x.value.Plain o) :
    loads o junk T.object (dumps o x.value) = .returned x.value := by
  obtain ⟨x, hsame⟩ := x
  have hnamed := Value.wellNamed_of_sameType T.object x hsame T.wellNamed
  rw [StructType.object, Value.SameType] at hsame
  obtain ⟨fields, rfl, hfields⟩ := hsame
  have hblank := (Value.object T.className fields).toString_eq o hnamed hplain
  have hassign := assign_object o hnamed hplain junk T.fields
    (Fields.SameType.names_eq T.fields fields hfields)
  rw [Value.WellNamed] at hnamed
  simp only [Value.Plain] at hplain
  have hset := Fields.assign_text o junk T.fields fields hfields hnamed.2.2 hplain.2
  rw [loads, dumps, hblank, StructType.object, hassign hset]

/-- The fields of a struct with a nested one, a list and a number. -/
def nestingFields (z : Str) (vec : List Str) (x : Int32) : Fields :=
  .cons (ascii "node") (.object (ascii "Node") (.cons (ascii "z") (.string z) .nil))
    (.cons (ascii "vec") (.strings vec) (.cons (ascii "x") (.int x) .nil))

/-- Its type. -/
def nestingType : StructType where
  className := ascii "Node2"
  fields := nestingFields [] [] 0
  wellNamed := by
    have hz := fieldName_of_all (show (ascii "z").all _ = true from rfl)
    have hnode := fieldName_of_all (show (ascii "node").all _ = true from rfl)
    have hvec := fieldName_of_all (show (ascii "vec").all _ = true from rfl)
    have hx := fieldName_of_all (show (ascii "x").all _ = true from rfl)
    have hNode := className_of_all (show (ascii "Node").all _ = true from rfl)
    have hNode2 := className_of_all (show (ascii "Node2").all _ = true from rfl)
    simp only [nestingFields, Value.WellNamed, Fields.WellNamed]
    exact ⟨hNode2, by decide, hnode, ⟨hNode, by decide, hz, trivial, trivial⟩, hvec, trivial, hx,
      trivial, trivial⟩

/-- A value of it whose strings hold a pair of braces, a quote and nothing. -/
def nestingInstance : nestingType.Instance where
  value := .object (ascii "Node2") (nestingFields (ascii "\x7b\x7d") [ascii "a\"b", []] 5)
  sameType := ⟨_, rfl, _, _, rfl, ⟨_, rfl, _, _, rfl, ⟨_, rfl⟩, rfl⟩, _, _, rfl, ⟨_, rfl⟩, _, _,
    rfl,
    ⟨_, rfl⟩, rfl⟩

theorem loads_dumps_nesting :
    loads keyOrder 0 nestingType.object (dumps keyOrder nestingInstance.value) =
      .returned nestingInstance.value := by
  apply loads_dumps
  simp only [nestingInstance, nestingFields, Value.Plain, Fields.Plain, Value.Closed,
    Fields.contents, Value.contents]
  decide +kernel

/-- The fields of a struct with one string. -/
def noteFields (z : Str) : Fields := .cons (ascii "z") (.string z) .nil

/-- Its type. -/
def noteType : StructType where
  className := ascii "Node"
  fields := noteFields []
  wellNamed := by
    have hz := fieldName_of_all (show (ascii "z").all _ = true from rfl)
    have hNode := className_of_all (show (ascii "Node").all _ = true from rfl)
    simp only [noteFields, Value.WellNamed, Fields.WellNamed]
    exact ⟨hNode, by decide, hz, trivial, trivial⟩

/-- A value of it whose string holds a quote. -/
def noteInstance : noteType.Instance where
  value := .object (ascii "Node") (noteFields (ascii "a\"b"))
  sameType := ⟨_, rfl, _, _, rfl, ⟨_, rfl⟩, rfl⟩

/-- An order in which the last key comes first. -/
def newestFirst : MapOrder := ⟨List.reverse, List.reverse_perm⟩

/-- A map with two keys lists them in one of two orders. -/
theorem MapOrder.entries_pair (o : MapOrder) {a b : Str × Str} (h : a.1 ≠ b.1) :
    o.entries [a, b] = [a, b] ∨ o.entries [a, b] = [b, a] :=
  List.perm_pair.mp (o.entries_perm (by simp [h]))

section
variable (o : MapOrder) (junk : Int32) {json : Str}

/-- The text of the value is read as the name and the string up to the quote. -/
theorem loads_note_short
    (hparse : parse json =
      .ok [(classNameKey, quoted (ascii "Node")), (ascii "z", quoted (ascii "a"))]) :
    loads o junk noteType.object json =
      .returned (.object (ascii "Node") (noteFields (ascii "a"))) := by
  rw [loads, StructType.object, Value.assign, hparse]
  obtain h | h := o.entries_pair (a := (classNameKey, quoted (ascii "Node")))
    (b := (ascii "z", quoted (ascii "a"))) (by decide)
  · simp only [h]
    rfl
  · simp only [h]
    rfl

/-- The text of the value is read as a struct with a field that is not known. -/
theorem loads_note_unknown
    (hparse : parse json =
      .ok [(ascii "z", quoted (ascii "a")), (ascii "bclass_name", quoted (ascii "Node"))]) :
    loads o junk noteType.object json = .noReturn := by
  rw [loads, StructType.object, Value.assign, hparse]
  obtain h | h := o.entries_pair (a := (ascii "z", quoted (ascii "a")))
    (b := (ascii "bclass_name", quoted (ascii "Node"))) (by decide)
  · simp only [h]
    rfl
  · simp only [h]
    rfl

end

/-- The text of the value with the struct's name in front. -/
theorem parse_note_named : parse (dumps keyOrder noteInstance.value) =
    .ok [(classNameKey, quoted (ascii "Node")), (ascii "z", quoted (ascii "a"))] := by
  decide +kernel

/-- The text of the value with the struct's name behind. -/
theorem parse_note_unnamed : parse (dumps newestFirst noteInstance.value) =
    .ok [(ascii "z", quoted (ascii "a")), (ascii "bclass_name", quoted (ascii "Node"))] := by
  decide +kernel

/-- There are two texts of the value. -/
theorem dumps_note (o : MapOrder) :
    dumps o noteInstance.value = dumps keyOrder noteInstance.value ∨
      dumps o noteInstance.value = dumps newestFirst noteInstance.value := by
  have hdumps : ∀ o : MapOrder, dumps o noteInstance.value = serializedToString (o.entries
      [(classNameKey, quoted (ascii "Node")), (ascii "z", quoted (ascii "a\"b"))]) := fun _ => rfl
  obtain h | h := o.entries_pair (a := (classNameKey, quoted (ascii "Node")))
    (b := (ascii "z", quoted (ascii "a\"b"))) (by decide)
  · left
    rw [hdumps, h]
    rfl
  · right
    rw [hdumps, h]
    rfl

/-- **A string with a quote does not come back**, whatever the order of the map.  With the struct's
name in front `loads` keeps what stands before the quote; with the name behind, what follows the
quote becomes a part of that key, and `loads` comes to its end without a `return`. -/
theorem loads_dumps_quote :
    (loads keyOrder 0 noteType.object (dumps keyOrder noteInstance.value) =
        .returned (.object (ascii "Node") (noteFields (ascii "a"))) ∧
      loads newestFirst 0 noteType.object (dumps newestFirst noteInstance.value) = .noReturn) ∧
    ∀ (o : MapOrder) (junk : Int32),
      loads o junk noteType.object (dumps o noteInstance.value) ≠ .returned noteInstance.value := by
  refine ⟨⟨loads_note_short _ _ parse_note_named, loads_note_unknown _ _ parse_note_unnamed⟩,
    fun o junk h => ?_⟩
  obtain hdumps | hdumps := dumps_note o
  · rw [hdumps, loads_note_short o junk parse_note_named, noteInstance] at h
    simp only [noteFields, Loaded.returned.injEq, Value.object.injEq, Fields.cons.injEq,
      Value.string.injEq, true_and, and_true] at h
    exact absurd h (by decide)
  · rw [hdumps, loads_note_unknown o junk parse_note_unnamed] at h
    cases h

end Rojcpp.Json
