import Rojcpp.Json.UnpackingList

/-!
# Registered structs, `dumps` and `loads`

A value of a registered struct type is a tree: the struct's name and, in the order in which
`get_config` lists them, its fields.  A type is given by the object its default constructor makes:
`loads` starts from that object, and each field's constructor is the type the setter is looked up
under.

Three things are parameters.  `MapOrder` is the order in which an `unordered_map` lists its
entries, which is a function of its keys.  `junk` is what a number holds that was never assigned.
And every setter is taken to be registered, as it is once `Regist` and `dumps` have run for the
types involved.  `none` is undefined behaviour.
-/

namespace Rojcpp.Json

open Rojcpp.Lib

mutual

/-- A value of one of the types the library converts. -/
inductive Value where
  | int (n : Int32)
  | string (s : Str)
  | ints (l : List Int32)
  | strings (l : List Str)
  | object (className : Str) (fields : Fields)

/-- The fields of a struct. -/
inductive Fields where
  | nil
  | cons (name : Str) (value : Value) (rest : Fields)

end

/-- The key under which `Reflectable::get_config` stores the name of the type. -/
def classNameKey : Str := ascii "class_name"

/-- The order in which an `unordered_map` lists its keys, given the order in which they came. -/
structure MapOrder where
  arrange : List Str → List Str
  perm : ∀ keys, (arrange keys).Perm keys

/-- The entries of a map in its order. -/
def MapOrder.entries (o : MapOrder) {β : Type} (m : List (Str × β)) : List (Str × β) :=
  (o.arrange (m.map Prod.fst)).filterMap fun k => (m.lookup k).map fun v => (k, v)

/-- An order in which keys are listed as they come. -/
def keyOrder : MapOrder := ⟨id, fun _ => List.Perm.refl _⟩

/-! ### Texts of values -/

/-- The states of `unescape_string`: `escape` says that a backslash is pending. -/
def unescapeLoop (escape : Bool) : Str → Str
  | [] => []
  | c :: t =>
    if escape then
      (if c = 'n' then [10] else if c = 'r' then [13] else if c = 't' then [9]
        else if c = dquote then [dquote] else if c = '\'' then [39]
        else if c = bslash then [bslash] else [bslash, c]) ++ unescapeLoop false t
    else if c = bslash then unescapeLoop true t
    else c :: unescapeLoop false t

/-- `unescape_string`.  A backslash at the end is dropped. -/
def unescapeString (s : Str) : Str := unescapeLoop false s

/-- The setter of `int`: `iss >> value` into a variable that has no value yet. -/
def readInt (junk : Int32) (str : Str) : Int32 := ((IStream.ofStr str).extractInt junk).1

/-- The setter of `std::string`.  `front()` on an empty text is undefined, and so is removing a
second quote from a text that was one quote. -/
def readString (str : Str) : Option Str :=
  match str with
  | [] => none
  | c :: t =>
    let value := if c = dquote then t else c :: t
    if value = [] then none
    else some (unescapeString (if value.getLast? = some dquote then value.dropLast else value))

/-- The entries of `serialized_to_string`, each with a blank behind it. -/
def entriesText : List (Str × Str) → Str
  | [] => []
  | [e] => dquote :: (e.1 ++ dquote :: colon :: (e.2 ++ [32]))
  | e :: es => dquote :: (e.1 ++ dquote :: colon :: (e.2 ++ comma :: 32 :: entriesText es))

/-- `serialized_to_string`, with `first_nested_layer` at its default. -/
def serializedToString (es : List (Str × Str)) : Str :=
  lbrace :: 32 :: (entriesText es ++ [rbrace, 32])

/-! ### Writing -/

section
variable (o : MapOrder)

mutual

/-- `To_String<T>::to`; a string is put in quotes as it is. -/
def Value.toString : Value → Str
  | .int n => toStringInt n
  | .string s => quoted s
  | .ints l => listText (l.map toStringInt)
  | .strings l => listText (l.map quoted)
  | .object className fields =>
    serializedToString (o.entries
      (Config.setAll [(classNameKey, quoted className)] fields.toStrings))

/-- The pairs `get_config` puts into the map. -/
def Fields.toStrings : Fields → List (Str × Str)
  | .nil => []
  | .cons name value rest => (name, value.toString) :: rest.toStrings

end

/-- `Serializable::dumps`. -/
def dumps (x : Value) : Str := x.toString o

/-! ### Reading -/

/-- Assign a field. -/
def Fields.set : Fields → Str → Value → Fields
  | .nil, _, _ => .nil
  | .cons name value rest, key, v =>
    if key = name then .cons name v rest else .cons name value (rest.set key v)

/-- The loop of `config_to_object` over the entries of the map, with the setters of the object's
fields as a function: `none` for a name that is no field.  That name's exception ends the loop,
and the result says so. -/
def configToObject (setter : Str → Str → Option (Option Value)) (fields : Fields) :
    List (Str × Str) → Option (Fields × Bool)
  | [] => some (fields, false)
  | e :: es =>
    if e.1 = classNameKey then configToObject setter fields es
    else
      match setter e.1 e.2 with
      | none => some (fields, true)
      | some none => none
      | some (some v) => configToObject setter (fields.set e.1 v) es

variable (junk : Int32)

mutual

/-- The setter of the value's type: the value afterwards, and whether an exception left it. -/
def Value.assign : Value → Str → Option (Value × Bool)
  | .int _, str => some (.int (readInt junk str), false)
  | .string _, str => (readString str).map fun s => (.string s, false)
  | .ints _, str => some (.ints ((unpackingList str).map (readInt junk)), false)
  | .strings _, str => ((unpackingList str).mapM readString).map fun l => (.strings l, false)
  | .object className fields, str =>
    match parse str with
    | .error .undefined => none
    | .error (.delimiter _) => some (.object className fields, true)
    | .ok conf => (configToObject (fun key s => fields.assign key s) fields (o.entries conf)).map
        fun r => (.object className r.1, r.2)

/-- The setter of the field with this name; an exception that leaves it is caught by
`config_to_object`. -/
def Fields.assign : Fields → Str → Str → Option (Option Value)
  | .nil, _, _ => none
  | .cons name value rest, key, str =>
    if key = name then some ((value.assign str).map Prod.fst) else rest.assign key str

end

/-- How `loads` ends: it returns an object, or it reaches its end without a `return` because the
exception was only printed, or something undefined has happened before. -/
inductive Loaded where
  | returned (x : Value)
  | noReturn
  | undefined

/-- `Serializable::loads`, with the object its local variable starts as. -/
def loads (obj : Value) (json : Str) : Loaded :=
  match obj.assign o junk json with
  | none => .undefined
  | some (x, false) => .returned x
  | some (_, true) => .noReturn

end

/-! ### Setters -/

/-- A text without backslashes has nothing to undo. -/
theorem unescape_of_no_bslash {s : Str} (h : bslash ∉ s) : unescapeLoop false s = s := by
  induction s with
  | nil => rfl
  | cons c s ih =>
    have hc : c ≠ bslash := by rintro rfl; exact h (by simp)
    rw [unescapeLoop, if_neg (by decide), if_neg hc, ih fun hs => h (by simp [hs])]

theorem readInt_toStringInt (junk n : Int32) : readInt junk (toStringInt n) = n := by
  have h := extractInt_toStringInt n junk [] (by simp)
  rw [List.append_nil] at h
  rw [readInt, h]

theorem readString_quoted (body : Str) : readString (quoted body) = some (unescapeString body) := by
  rw [quoted, List.cons_append, readString]
  simp only [if_true]
  rw [if_neg (by simp), if_pos List.getLast?_concat, List.dropLast_concat]

/-! ### Maps and their order -/

theorem lookup_eq_some_iff {β : Type} {m : List (Str × β)} (h : (m.map Prod.fst).Nodup) (k : Str)
    (v : β) : m.lookup k = some v ↔ (k, v) ∈ m := by
  induction m with
  | nil => simp
  | cons e m ih =>
    obtain ⟨k', v'⟩ := e
    rw [List.map_cons, List.nodup_cons] at h
    rw [List.lookup_cons]
    by_cases hk : k = k'
    · subst hk
      have hnew : (k, v) ∉ m := fun hmem =>
        h.1 (List.mem_map.mpr ⟨(k, v), hmem, rfl⟩)
      simp [hnew, eq_comm]
    · simp [beq_eq_false_iff_ne.mpr hk, ih h.2, hk]

/-- The entries of a map in its order are its entries. -/
theorem MapOrder.entries_perm (o : MapOrder) {β : Type} {m : List (Str × β)}
    (h : (m.map Prod.fst).Nodup) : (o.entries m).Perm m := by
  have hself : ((m.map Prod.fst).filterMap fun k => (m.lookup k).map fun v => (k, v)) = m := by
    rw [List.filterMap_map]
    have hid : ∀ e ∈ m, (m.lookup e.1).map (fun v => (e.1, v)) = some e := by
      intro e he
      rw [(lookup_eq_some_iff h e.1 e.2).mpr he]
      rfl
    calc m.filterMap (fun e => (m.lookup e.1).map fun v => (e.1, v))
        = m.filterMap some := List.filterMap_congr hid
      _ = m := List.filterMap_some
  calc (o.entries m).Perm ((m.map Prod.fst).filterMap fun k => (m.lookup k).map fun v => (k, v)) :=
        (o.perm _).filterMap _
    _ = m := hself

/-- The order depends on the keys only. -/
theorem MapOrder.entries_map (o : MapOrder) {β γ : Type} (f : β → γ) (m : List (Str × β)) :
    o.entries (m.map fun e => (e.1, f e.2)) = (o.entries m).map fun e => (e.1, f e.2) := by
  have hkeys : (m.map fun e => (e.1, f e.2)).map Prod.fst = m.map Prod.fst := by
    rw [List.map_map]
    rfl
  have hlookup : ∀ k, (m.map fun e => (e.1, f e.2)).lookup k = (m.lookup k).map f := by
    intro k
    induction m with
    | nil => rfl
    | cons e m ih =>
      rw [List.map_cons, List.lookup_cons, List.lookup_cons]
      cases hk : k == e.1 with
      | true => rfl
      | false => exact ih (by rw [List.map_map]; rfl)
  rw [entries, entries, hkeys, List.map_filterMap]
  congr 1
  funext k
  rw [hlookup, Option.map_map, Option.map_map]
  rfl

/-! ### Fields -/

theorem Value.assign_string (o : MapOrder) (junk : Int32) {s s' t : Str}
    (h : readString t = some s') :
    ((Value.string s).assign o junk t).map Prod.fst = some (.string s') := by
  rw [assign, h]
  rfl

theorem Value.assign_int (o : MapOrder) {junk n n' : Int32} {t : Str} (h : readInt junk t = n') :
    ((Value.int n).assign o junk t).map Prod.fst = some (.int n') := by
  rw [assign, h]
  rfl

/-- The fields as a list. -/
def Fields.toList : Fields → List (Str × Value)
  | .nil => []
  | .cons name value rest => (name, value) :: rest.toList

/-- The names of the fields. -/
def Fields.names (fields : Fields) : List Str := fields.toList.map Prod.fst

/-- The value of the field with this name. -/
def Fields.get : Fields → Str → Option Value
  | .nil, _ => none
  | .cons name value rest, key => if key = name then some value else rest.get key

@[simp] theorem Fields.names_cons (name : Str) (value : Value) (rest : Fields) :
    (Fields.cons name value rest).names = name :: rest.names := rfl

theorem Fields.get_isSome : ∀ (fields : Fields) (key : Str), key ∈ fields.names →
    ∃ v, fields.get key = some v
  | .nil, _, h => by cases h
  | .cons name value rest, key, h => by
    rw [get]
    by_cases hname : key = name
    · exact ⟨value, by rw [if_pos hname]⟩
    · rw [if_neg hname]
      apply get_isSome rest key
      rw [names_cons, List.mem_cons] at h
      exact h.resolve_left hname

@[simp] theorem Fields.names_set : ∀ (fields : Fields) (key : Str) (v : Value),
    (fields.set key v).names = fields.names
  | .nil, _, _ => rfl
  | .cons name value rest, key, v => by
    rw [set]
    split
    · rfl
    · rw [names_cons, names_cons, names_set rest key v]

theorem Fields.get_set : ∀ (fields : Fields) (key k : Str) (v : Value), key ∈ fields.names →
    (fields.set key v).get k = if k = key then some v else fields.get k
  | .nil, _, _, _, h => by cases h
  | .cons name value rest, key, k, v, h => by
    rw [set]
    by_cases hname : key = name
    · rw [if_pos hname, get, get, hname]
      by_cases hk : k = name
      · rw [if_pos hk, if_pos hk]
      · rw [if_neg hk, if_neg hk, if_neg hk]
    · have hrest : key ∈ rest.names := by
        rw [names_cons, List.mem_cons] at h
        exact h.resolve_left hname
      rw [if_neg hname, get, get, get_set rest key k v hrest]
      by_cases hk : k = name
      · rw [if_pos hk, if_pos hk, if_neg (by rw [hk]; exact Ne.symm hname)]
      · rw [if_neg hk, if_neg hk]

/-- The setter of a field is the setter of its value. -/
theorem Fields.assign_eq (o : MapOrder) (junk : Int32) : ∀ (fields : Fields) (key str : Str),
    fields.assign o junk key str =
      (fields.get key).map fun v => (v.assign o junk str).map Prod.fst
  | .nil, _, _ => rfl
  | .cons name value rest, key, str => by
    rw [assign, get]
    by_cases hname : key = name
    · rw [if_pos hname, if_pos hname]
      rfl
    · rw [if_neg hname, if_neg hname, assign_eq o junk rest key str]

/-- Fields with different names are determined by their names and the value under each name. -/
theorem Fields.ext_get : ∀ (a b : Fields), a.names = b.names → a.names.Nodup →
    (∀ k ∈ a.names, a.get k = b.get k) → a = b
  | .nil, .nil, _, _, _ => rfl
  | .nil, .cons _ _ _, h, _, _ => by cases h
  | .cons _ _ _, .nil, h, _, _ => by cases h
  | .cons n v a, .cons n' v' b, hnames, hnodup, hget => by
    rw [names_cons, names_cons, List.cons.injEq] at hnames
    obtain ⟨rfl, hnames⟩ := hnames
    rw [names_cons, List.nodup_cons] at hnodup
    have hv : v = v' := by
      have h := hget n (by simp)
      rw [get, get, if_pos rfl, if_pos rfl] at h
      exact Option.some.inj h
    have hrest : a = b := by
      apply ext_get a b hnames hnodup.2
      intro k hk
      have h := hget k (by simp [hk])
      have hne : k ≠ n := by rintro rfl; exact hnodup.1 hk
      rw [get, get, if_neg hne, if_neg hne] at h
      exact h
    rw [hv, hrest]

/-- **The loop of `config_to_object`**: when every entry sets its field to the target's value and
the fields without an entry have it already, the result is the target, in whatever order the
entries come. -/
theorem configToObject_eq (setter : Str → Str → Option (Option Value)) (target : Fields)
    (hnodup : target.names.Nodup) (hkey : classNameKey ∉ target.names) (es : List (Str × Str)) :
    ∀ fields : Fields, fields.names = target.names →
    (∀ e ∈ es, e.1 ≠ classNameKey → e.1 ∈ target.names ∧ setter e.1 e.2 = some (target.get e.1)) →
    (∀ k ∈ target.names, k ∉ es.map Prod.fst → fields.get k = target.get k) →
    configToObject setter fields es = some (target, false) := by
  induction es with
  | nil =>
    intro fields hnames _ hkeep
    have heq : fields = target := by
      apply Fields.ext_get fields target hnames (hnames ▸ hnodup)
      intro k hk
      exact hkeep k (hnames ▸ hk) (by simp)
    rw [configToObject, heq]
  | cons e es ih =>
    intro fields hnames hset hkeep
    have hset' := fun e' he' => hset e' (List.mem_cons_of_mem e he')
    rw [configToObject]
    by_cases hclass : e.1 = classNameKey
    · rw [if_pos hclass]
      apply ih fields hnames hset'
      intro k hk hnot
      apply hkeep k hk
      rw [List.map_cons, List.mem_cons, not_or]
      exact ⟨fun h => hkey (hclass ▸ h ▸ hk), hnot⟩
    · rw [if_neg hclass]
      obtain ⟨hmem, hsetter⟩ := hset e (by simp) hclass
      obtain ⟨v, hv⟩ : ∃ v, target.get e.1 = some v := Fields.get_isSome target e.1 hmem
      rw [hsetter, hv]
      simp only
      have hmem' : e.1 ∈ fields.names := hnames ▸ hmem
      apply ih (fields.set e.1 v) (by rw [Fields.names_set, hnames]) hset'
      intro k hk hnot
      rw [Fields.get_set fields e.1 k v hmem']
      by_cases hke : k = e.1
      · rw [if_pos hke, hke, hv]
      · rw [if_neg hke]
        apply hkeep k hk
        rw [List.map_cons, List.mem_cons, not_or]
        exact ⟨hke, hnot⟩

end Rojcpp.Json
