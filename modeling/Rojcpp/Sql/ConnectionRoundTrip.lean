import Rojcpp.Sql.ConnectionString

/-!
# Connection strings that are written

A driver and its properties as the text `driver:key='value';...`, with every quote of a value
doubled and with or without a semicolon behind the last property.  In quotes a value may hold
anything; a key goes as far as the first equals sign and loses its outer blanks.

`connectionInfo_render` says that the constructor of `connection_info` gives the driver and the map
back.
-/

namespace Rojcpp.Sql

open Function

/-- `connection_info`. -/
structure ConnectionInfo where
  connectionString : Str
  driver : Str
  properties : Params

/-- The constructor from a text. -/
def ConnectionInfo.ofString (fuel : ℕ) (cs : Str) : Option (Except Str ConnectionInfo) :=
  (parseConnectionString fuel cs).map fun r => r.map fun parsed => ⟨cs, parsed.1, parsed.2⟩

/-- `has`. -/
def ConnectionInfo.has (info : ConnectionInfo) (prop : Str) : Bool :=
  (info.properties prop).isSome

/-- `get`, for a text. -/
def ConnectionInfo.get (info : ConnectionInfo) (prop defaultValue : Str) : Str :=
  (info.properties prop).getD defaultValue

/-- A property as it is written. -/
def propertyText (p : Str × Str) : Str :=
  p.1 ++ equals :: squote :: (doubleQuotes p.2 ++ [squote])

/-- The properties, with semicolons between them and perhaps one behind the last. -/
def renderProperties (trailing : Bool) : List (Str × Str) → Str
  | [] => []
  | [p] => propertyText p ++ if trailing = true then [semicolon] else []
  | p :: q :: ps => propertyText p ++ semicolon :: renderProperties trailing (q :: ps)

/-- The whole connection string. -/
def renderConnection (trailing : Bool) (driver : Str) (ps : List (Str × Str)) : Str :=
  driver ++ colon :: renderProperties trailing ps

/-- Neither the first nor the last character is blank. -/
def NoOuterBlank (s : Str) : Prop :=
  (∀ c ∈ s.head?, isBlankChar c = false) ∧ ∀ c ∈ s.getLast?, isBlankChar c = false

/-- Properties that can be written: different keys without equals signs and outer blanks. -/
structure Renderable (ps : List (Str × Str)) : Prop where
  distinct : (ps.map Prod.fst).Nodup
  noEquals : ∀ p ∈ ps, equals ∉ p.1
  trimmed : ∀ p ∈ ps, NoOuterBlank p.1

theorem Renderable.tail {p : Str × Str} {ps : List (Str × Str)} (h : Renderable (p :: ps)) :
    Renderable ps where
  distinct := (List.nodup_cons.mp h.distinct).2
  noEquals q hq := h.noEquals q (List.mem_cons_of_mem p hq)
  trimmed q hq := h.trimmed q (List.mem_cons_of_mem p hq)

theorem Renderable.lookup {p : Str × Str} {ps : List (Str × Str)} (h : Renderable ps)
    (hp : p ∈ ps) : ps.lookup p.1 = some p.2 := by
  obtain ⟨before, after, rfl⟩ := List.append_of_mem hp
  refine List.lookup_eq_some_iff.mpr ⟨before, after, rfl, fun q hq => ?_⟩
  have hdistinct := h.distinct
  rw [List.map_append, List.nodup_append] at hdistinct
  rw [bne_iff_ne]
  exact (hdistinct.2.2 q.1 (List.mem_map_of_mem hq) p.1 List.mem_cons_self).symm

/-! ### Keys -/

theorem dropWhile_of_head {s : Str} (h : ∀ c ∈ s.head?, isBlankChar c = false) :
    s.dropWhile isBlankChar = s := by
  cases s with
  | nil => rfl
  | cons c s =>
    refine List.dropWhile_cons_of_neg ?_
    rw [h c rfl]
    exact Bool.false_ne_true

theorem trim_eq_self {s : Str} (h : NoOuterBlank s) : trim s = s := by
  have hlast : ∀ c ∈ s.reverse.head?, isBlankChar c = false := by
    rw [List.head?_reverse]
    exact h.2
  rw [trim, dropWhile_of_head h.1, dropWhile_of_head hlast, List.reverse_reverse]

/-! ### The map -/

/-- The properties stored one after the other. -/
def Params.setAll (params : Params) (ps : List (Str × Str)) : Params :=
  ps.foldl (fun params p => update params p.1 (some p.2)) params

/-- With different keys each lookup finds its own property. -/
theorem Params.setAll_apply (ps : List (Str × Str)) : ∀ params : Params,
    (ps.map Prod.fst).Nodup → ∀ key, params.setAll ps key = (ps.lookup key).or (params key) := by
  induction ps with
  | nil =>
    intro params _ key
    rfl
  | cons p ps ih =>
    intro params hdistinct key
    obtain ⟨hnew, hrest⟩ := List.nodup_cons.mp hdistinct
    show Params.setAll (update params p.1 (some p.2)) ps key = _
    rw [ih _ hrest, List.lookup_cons]
    by_cases hkey : key = p.1
    · have hnone : ps.lookup key = none := by
        rw [List.lookup_eq_none_iff]
        intro q hq
        rw [bne_iff_ne, hkey]
        exact fun heq => hnew (List.mem_map.mpr ⟨q, hq, heq.symm⟩)
      rw [hnone, hkey, update_self, beq_self_eq_true]
      rfl
    · rw [update_of_ne hkey, beq_false_of_ne hkey]

/-! ### Reading what was written -/

theorem no_blanks : ∀ b ∈ ([] : Str), isBlankChar b = true := fun _ hb => absurd hb List.not_mem_nil

/-- Behind a property stands nothing, or a semicolon and the other properties. -/
theorem renderProperties_cons (trailing : Bool) (p : Str × Str) (ps : List (Str × Str)) :
    ∃ rest, renderProperties trailing (p :: ps) = propertyText p ++ rest ∧
      (rest = [] ∧ ps = [] ∨ rest = semicolon :: renderProperties trailing ps) := by
  cases ps with
  | nil =>
    cases trailing with
    | false => exact ⟨[], rfl, .inl ⟨rfl, rfl⟩⟩
    | true => exact ⟨[semicolon], rfl, .inr rfl⟩
  | cons q ps => exact ⟨_, rfl, .inr rfl⟩

/-- One turn of the loop over the properties. -/
theorem properties_propertyText {p : Str × Str} {params : Params} {rest : Str}
    (hkey : equals ∉ p.1) (htrim : trim p.1 = p.1) (hnew : params p.1 = none)
    (hrest : rest.head? ≠ some squote) (fuel : ℕ) :
    properties (fuel + 1) params (propertyText p ++ rest) =
      (skipSeparator fuel rest).bind (properties fuel (update params p.1 (some p.2))) := by
  have htext : propertyText p ++ rest =
      p.1 ++ equals :: (squote :: (doubleQuotes p.2 ++ squote :: rest)) := by
    simp [propertyText]
  have hvalue : propertyValue (squote :: (doubleQuotes p.2 ++ squote :: rest)) =
      some (p.2, rest) :=
    propertyValue_quoted no_blanks p.2 hrest
  rw [htext, properties_pair hkey hvalue (by rw [htrim]; exact hnew), htrim]

/-- **All properties are read**, whatever is known before under other keys. -/
theorem properties_render (trailing : Bool) (ps : List (Str × Str)) :
    ∀ (fuel : ℕ) (params : Params), Renderable ps → (∀ p ∈ ps, params p.1 = none) →
      (renderProperties trailing ps).length ≤ fuel →
      properties fuel params (renderProperties trailing ps) = some (.ok (params.setAll ps)) := by
  induction ps with
  | nil =>
    intro fuel params _ _ _
    exact properties.eq_1 fuel params
  | cons p ps ih =>
    intro fuel params hps hnew hfuel
    obtain ⟨rest, htext, hrest⟩ := renderProperties_cons trailing p ps
    have hp : p ∈ p :: ps := List.mem_cons_self
    have htrim := trim_eq_self (hps.trimmed p hp)
    rw [htext, List.length_append, propertyText, List.length_append, List.length_cons] at hfuel
    obtain ⟨fuel, rfl⟩ : ∃ n, fuel = n + 1 := ⟨fuel - 1, by omega⟩
    have hhead : rest.head? ≠ some squote := by
      rcases hrest with ⟨hnil, -⟩ | hsemi
      · rw [hnil]
        exact (Option.some_ne_none _).symm
      · rw [hsemi]
        exact fun hc => absurd (Option.some.inj hc) (by decide)
    rw [htext, properties_propertyText (hps.noEquals p hp) htrim (hnew p hp) hhead]
    rcases hrest with ⟨hnil, hlast⟩ | hsemi
    · rw [hnil, hlast, skipSeparator.eq_1]
      exact properties.eq_1 _ _
    · have hskip := skipSeparator_semicolon no_blanks (renderProperties trailing ps) fuel
      have hlength := congrArg List.length hsemi
      rw [List.length_cons] at hlength
      rw [List.nil_append, List.length_nil, if_pos (by omega)] at hskip
      rw [hsemi, hskip, Option.bind_some]
      refine ih fuel _ hps.tail (fun q hq => ?_) (by omega)
      have hne : q.1 ≠ p.1 := fun heq =>
        (List.nodup_cons.mp hps.distinct).1 (List.mem_map.mpr ⟨q, hq, heq⟩)
      rw [update_of_ne hne]
      exact hnew q (List.mem_cons_of_mem p hq)

/-- What the getters give back for a property that was written. -/
theorem ConnectionInfo.get_written {info : ConnectionInfo} {ps : List (Str × Str)}
    (hps : Renderable ps) (hinfo : info.properties = fun key => ps.lookup key) {p : Str × Str}
    (hp : p ∈ ps) (defaultValue : Str) :
    info.has p.1 = true ∧ info.get p.1 defaultValue = p.2 := by
  have hlookup : info.properties p.1 = some p.2 := by
    rw [hinfo]
    exact hps.lookup hp
  rw [ConnectionInfo.has, ConnectionInfo.get, hlookup]
  exact ⟨rfl, rfl⟩

/-- **What is written is read**: for every driver without a colon, all properties that can be
written, and every value, the constructor gives the driver and the map of the properties. -/
theorem connectionInfo_render (trailing : Bool) (driver : Str) (ps : List (Str × Str))
    (hdriver : colon ∉ driver) (hps : Renderable ps) (fuel : ℕ)
    (hfuel : (renderConnection trailing driver ps).length ≤ fuel) :
    ConnectionInfo.ofString fuel (renderConnection trailing driver ps) =
      some (.ok ⟨renderConnection trailing driver ps, driver, fun key => ps.lookup key⟩) := by
  rw [renderConnection, List.length_append, List.length_cons] at hfuel
  have hread := properties_render trailing ps fuel (fun _ => none) hps (fun _ _ => rfl) (by omega)
  have hmap : Params.setAll (fun _ => none) ps = fun key => ps.lookup key := by
    funext key
    rw [Params.setAll_apply ps _ hps.distinct, Option.or_none]
  rw [ConnectionInfo.ofString, parseConnectionString, renderConnection, cutAt_append hdriver]
  simp only [hread, hmap, Option.map_some, Except.map]

/-- Two properties whose values hold quotes, blanks, a semicolon and an equals sign. -/
def quotedProperties : List (Str × Str) :=
  [(ascii "user", ascii " it's; "), (ascii "pw", ascii "'=''")]

theorem noOuterBlank_of_all {s : Str} (h : (s.all fun c => !isBlankChar c) = true) :
    NoOuterBlank s := by
  have hall : ∀ c ∈ s, isBlankChar c = false := fun c hc =>
    (Bool.not_eq_true' _).mp (List.all_eq_true.mp h c hc)
  exact ⟨fun c hc => hall c (List.mem_of_head? hc), fun c hc => hall c (List.mem_of_getLast? hc)⟩

theorem quotedProperties_renderable : Renderable quotedProperties where
  distinct := by decide
  noEquals p hp := by
    rcases List.mem_cons.mp hp with rfl | hp
    · decide
    · obtain rfl := List.mem_singleton.mp hp
      decide
  trimmed p hp := by
    rcases List.mem_cons.mp hp with rfl | hp
    · exact noOuterBlank_of_all rfl
    · obtain rfl := List.mem_singleton.mp hp
      exact noOuterBlank_of_all rfl

theorem connectionInfo_render_quotes :
    ConnectionInfo.ofString 40 (renderConnection true (ascii "mysql") quotedProperties) =
      some (.ok ⟨renderConnection true (ascii "mysql") quotedProperties,
        ascii "mysql", fun key => quotedProperties.lookup key⟩) :=
  connectionInfo_render true (ascii "mysql") quotedProperties (by decide)
    quotedProperties_renderable 40 (by decide)

end Rojcpp.Sql
