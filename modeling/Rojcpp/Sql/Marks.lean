import Rojcpp.Cpp.Files
import Rojcpp.Sql.Query

/-!
# Values over marks

`operator<<` of `query` for every type the concept `SQL_SUPPORT_TYPE` lets through, as a step on the
query that is left behind when it throws as well.  A caller may go on with the query after an
exception, so a sequence of values may hold some that are never bound.

`weave` is what a statement with values in it is meant to be: the stretches between its marks stay,
and the texts stand between them.  It never looks into a text, so a `?` of a value is no mark.
-/

namespace Rojcpp.Sql

open Rojcpp.Lib

/-- A value handed to `operator<<`: a fundamental type (a number with a fraction as the text
`std::to_string` gives it), a string in one of its forms, a time as `format_time` gives it, or a
type that gets past the concept and has no branch in `bind`, with the file `bind` was compiled in
and the name of the type. -/
inductive Input where
  | integer (x : ℤ)
  | floating (text : Str)
  | stringView (s : Str)
  | string (s : Str)
  | time (text : Str)
  | chars (s : Str)
  | unsupported (file type : Str)
  deriving DecidableEq, Repr

/-- The text `bind` stores for a value of a type it has a branch for. -/
def Input.boundText : Input → Option Str
  | .integer x => some (decimalInt x)
  | .floating text => some text
  | .stringView s => some s
  | .string s => some s
  | .time text => some text
  | .chars s => some (cStr s)
  | .unsupported _ _ => none

/-- The message of the exception `bind` ends in for any other type. -/
def unsupportedMessage (file type : Str) : Str :=
  ascii "[" ++ file ++ ascii ",234] : Do not support type: " ++ type

/-- `at(cols) = text; ++cols`, with the query it leaves. -/
def Query.assignNext (q : Query) (text : Str) : Except Str Unit × Query :=
  match q.checkCol q.cols with
  | .error e => (.error e, q)
  | .ok _ => (.ok (), { q with params := q.params.set q.cols text, cols := q.cols + 1 })

/-- `bind`, with the query it leaves. -/
def Query.bindInput (q : Query) : Input → Except Str Unit × Query
  | .integer x => q.assignNext (decimalInt x)
  | .floating text => q.assignNext text
  | .stringView s => q.assignNext s
  | .string s => q.assignNext s
  | .time text => q.assignNext text
  | .chars s => q.assignNext (cStr s)
  | .unsupported file type => (.error (unsupportedMessage file type), q)

/-- `operator<<` for a value, with the query it leaves. -/
def Query.insert (q : Query) (v : Input) : Except Str Unit × Query :=
  match q.bindInput v with
  | (.error e, q) => (.error e, q)
  | (.ok _, q) =>
    if q.useFenc then
      match q.checkCol q.cols with
      | .error e => (.error e, q)
      | .ok _ =>
        match q.checkCol (q.cols - 1) with
        | .error e => (.error e, q)
        | .ok _ =>
          let fenced := q.fencChar :: q.params.getD q.cols [] ++ [q.fencChar]
          (.ok (), { q with params := q.params.set (q.cols - 1) fenced, useFenc := false })
    else (.ok (), q)

/-- Values one after the other, where an exception is caught before the next one. -/
def Query.insertAll (q : Query) (vs : List Input) : Query := vs.foldl (fun q v => (q.insert v).2) q

/-- The texts a statement has room for. -/
def taken (s : Str) (vs : List Input) : List Str :=
  (vs.filterMap Input.boundText).take (getMarkSize s)

/-- The stretches with the texts between them. -/
def weave (stretches texts : List Str) : Str :=
  stretches.headD [] ++ (List.zipWith (· ++ ·) texts stretches.tail).flatten

/-! ### Weaving -/

theorem weave_cons (c : UInt8) (stretch : Str) (stretches texts : List Str) :
    weave ((c :: stretch) :: stretches) texts = c :: weave (stretch :: stretches) texts := rfl

theorem weave_mark (text : Str) {stretches : List Str} (hne : stretches ≠ []) (texts : List Str) :
    weave ([] :: stretches) (text :: texts) = text ++ weave stretches texts := by
  obtain ⟨stretch, rest, rfl⟩ := List.exists_cons_of_ne_nil hne
  show [] ++ (text ++ stretch ++ (List.zipWith (· ++ ·) texts rest).flatten) =
    text ++ (stretch ++ (List.zipWith (· ++ ·) texts rest).flatten)
  rw [List.nil_append, List.append_assoc]

/-- **The walk over the statement puts the texts between its stretches.** -/
theorem fillMarks_eq_weave (s : Str) : ∀ texts : List Str, texts.length = getMarkSize s →
    fillMarks s texts = weave (s.splitOn mark) texts := by
  induction s with
  | nil => exact fun texts hlen => by rw [List.length_eq_zero_iff.mp hlen]; rfl
  | cons c s ih =>
    intro texts hlen
    have hne : s.splitOn mark ≠ [] := List.splitOn_ne_nil mark s
    rw [fillMarks, List.splitOn_cons_eq_if_modifyHead]
    by_cases hc : c = mark
    · subst hc
      rw [if_pos rfl, if_pos (beq_self_eq_true _)]
      cases texts with
      | nil => rw [getMarkSize, List.count_cons_self] at hlen; cases hlen
      | cons text texts =>
        have hrest : texts.length = getMarkSize s := by
          rw [getMarkSize, List.count_cons_self] at hlen
          exact Nat.succ.inj hlen
        show text ++ fillMarks s texts = _
        rw [weave_mark text hne, ih texts hrest]
    · have hrest : texts.length = getMarkSize s := by
        rw [hlen, getMarkSize, List.count_cons_of_ne hc]
        rfl
      rw [if_neg hc, if_neg (by simpa using hc), ih texts hrest]
      obtain ⟨stretch, rest, hstretches⟩ := List.exists_cons_of_ne_nil hne
      rw [hstretches]
      exact (weave_cons c stretch rest texts).symm

/-- Pasting the marks themselves gives the statement back. -/
theorem weave_marks (s : Str) :
    weave (s.splitOn mark) (List.replicate (getMarkSize s) [mark]) = s := by
  rw [← fillMarks_eq_weave s _ List.length_replicate]
  induction s with
  | nil => rfl
  | cons c s ih =>
    rw [fillMarks]
    by_cases hc : c = mark
    · subst hc
      rw [if_pos rfl, getMarkSize, List.count_cons_self, List.replicate_succ]
      show mark :: fillMarks s (List.replicate (getMarkSize s) [mark]) = mark :: s
      rw [ih]
    · rw [if_neg hc, getMarkSize, List.count_cons_of_ne hc]
      show c :: fillMarks s (List.replicate (getMarkSize s) [mark]) = c :: s
      rw [ih]

/-! ### One value -/

theorem bindInput_eq (q : Query) (v : Input) :
    (∃ text, v.boundText = some text ∧ q.bindInput v = q.assignNext text) ∨
      (v.boundText = none ∧ ∃ e, q.bindInput v = (.error e, q)) := by
  cases v with
  | unsupported file type => exact .inr ⟨rfl, _, rfl⟩
  | integer x => exact .inl ⟨_, rfl, rfl⟩
  | floating text => exact .inl ⟨_, rfl, rfl⟩
  | stringView s => exact .inl ⟨_, rfl, rfl⟩
  | string s => exact .inl ⟨_, rfl, rfl⟩
  | time text => exact .inl ⟨_, rfl, rfl⟩
  | chars s => exact .inl ⟨_, rfl, rfl⟩

theorem bindInput_bound (q : Query) {v : Input} {text : Str} (hv : v.boundText = some text) :
    q.bindInput v = q.assignNext text := by
  rcases bindInput_eq q v with ⟨text', htext, hbind⟩ | ⟨hnone, -⟩
  · rw [hv, Option.some.injEq] at htext
    rw [htext]
    exact hbind
  · rw [hv] at hnone
    cases hnone

theorem bindInput_unsupported (q : Query) {v : Input} (hv : v.boundText = none) :
    ∃ e, q.bindInput v = (.error e, q) := by
  rcases bindInput_eq q v with ⟨text, htext, -⟩ | ⟨-, hbind⟩
  · rw [hv] at htext
    cases htext
  · exact hbind

theorem assignNext_room (q : Query) (text : Str) (h : q.cols < q.markSize) :
    q.assignNext text =
      (.ok (), { q with params := q.params.set q.cols text, cols := q.cols + 1 }) := by
  rw [Query.assignNext, checkCol_ok q q.cols h]

theorem checkCol_full (q : Query) (col : ℕ) (h : q.markSize ≤ col) :
    q.checkCol col = .error (ascii "overload cols size :" ++ decimal q.markSize) := by
  rw [Query.checkCol, if_neg (Nat.not_lt.mpr h)]

theorem assignNext_full (q : Query) (text : Str) (h : q.markSize ≤ q.cols) :
    ∃ e, q.assignNext text = (.error e, q) := by
  rw [Query.assignNext, checkCol_full q q.cols h]
  exact ⟨_, rfl⟩

/-- The values the judge's statements are fed are three of these. -/
def Input.ofSqlValue : SqlValue → Input
  | .int x => .integer x.toInt
  | .ull x => .integer x.toNat
  | .str s => .string s

theorem bindInput_ofSqlValue (q : Query) (v : SqlValue) :
    q.bindInput (.ofSqlValue v) = q.assignNext v.text := by
  cases v with
  | int x => rfl
  | ull x =>
    show q.assignNext (decimalInt x.toNat) = q.assignNext (decimal x.toNat)
    rw [decimalInt, if_neg (Int.not_lt.mpr (Int.natCast_nonneg _)), Int.natAbs_natCast]
  | str s => rfl

/-- **The query that survives an exception refines the one that does not**: `shiftLeft` is `insert`
with the query forgotten where it throws. -/
theorem shiftLeft_eq_insert (q : Query) (v : SqlValue) :
    q.shiftLeft v = match q.insert (.ofSqlValue v) with
      | (.ok _, q') => .ok q'
      | (.error e, _) => .error e := by
  rw [Query.insert, bindInput_ofSqlValue, Query.shiftLeft]
  by_cases hroom : q.cols < q.markSize
  · rw [bind_ok q v hroom, assignNext_room q _ hroom]
    simp only [bind, Except.bind]
    by_cases hfenc : q.useFenc = true
    · have hback := checkCol_ok { q with params := q.params.set q.cols v.text, cols := q.cols + 1 }
        (q.cols + 1 - 1) hroom
      rw [if_pos hfenc, if_pos hfenc, hback]
      cases Query.checkCol _ (q.cols + 1) with
      | error e => rfl
      | ok u => rfl
    · rw [if_neg hfenc, if_neg hfenc]
      rfl
  · have hfull := Nat.le_of_not_lt hroom
    rw [Query.bind, Query.assignNext, checkCol_full q q.cols hfull]
    rfl

/-! ### Values one after the other -/

/-- The query over `s` holds these texts, and no fence is pending. -/
structure Holds (s : Str) (texts : List Str) (q : Query) : Prop where
  queryStr : q.queryStr = s
  useFenc : q.useFenc = false
  cols : q.cols = texts.length
  room : texts.length ≤ getMarkSize s
  params : q.params = texts ++ List.replicate (getMarkSize s - texts.length) []

section
variable {s : Str} {texts : List Str} {q : Query}

theorem Query.new_holds (s : Str) : Holds s [] (Query.new s) :=
  ⟨rfl, rfl, rfl, Nat.zero_le _, rfl⟩

theorem Holds.markSize (h : Holds s texts q) : q.markSize = getMarkSize s := by
  rw [Query.markSize, h.queryStr]

/-- A value there is room for. -/
theorem Holds.next (h : Holds s texts q) (text : Str) (hroom : texts.length < getMarkSize s) :
    Holds s (texts ++ [text])
      { q with params := q.params.set q.cols text, cols := q.cols + 1 } := by
  obtain ⟨k, hk⟩ := Nat.exists_eq_add_of_lt hroom
  have hleft : getMarkSize s - texts.length = k + 1 := by omega
  have hlength : (texts ++ [text]).length = texts.length + 1 := List.length_append
  refine ⟨h.queryStr, h.useFenc, ?_, by omega, ?_⟩
  · rw [hlength, h.cols]
  · have hleft' : getMarkSize s - (texts ++ [text]).length = k := by omega
    show q.params.set q.cols text = _
    rw [hleft', h.params, h.cols, hleft, List.replicate_succ,
      List.set_append_right _ _ (Nat.le_refl _), Nat.sub_self, List.set_cons_zero,
      List.append_assoc, List.singleton_append]

/-- **A bind beyond the marks throws and leaves the query as it is**, and so does a type `bind` has
no branch for. -/
theorem Holds.insert_refused (h : Holds s texts q) (v : Input)
    (hv : getMarkSize s ≤ texts.length ∨ v.boundText = none) : ∃ e, q.insert v = (.error e, q) := by
  have hbind : ∃ e, q.bindInput v = (.error e, q) := by
    rcases bindInput_eq q v with ⟨text, htext, hbind⟩ | ⟨-, hbind⟩
    · have hfull : q.markSize ≤ q.cols := by
        rw [h.markSize, h.cols]
        exact hv.resolve_right (by rw [htext]; exact Option.some_ne_none _)
      rw [hbind]
      exact assignNext_full q text hfull
    · exact hbind
  obtain ⟨e, hbind⟩ := hbind
  exact ⟨e, by rw [Query.insert, hbind]⟩

/-- A value of a type `bind` has a branch for, while there is room. -/
theorem Holds.insert_bound (h : Holds s texts q) (v : Input) {text : Str}
    (hv : v.boundText = some text) (hroom : texts.length < getMarkSize s) :
    q.insert v =
      (.ok (), { q with params := q.params.set q.cols text, cols := q.cols + 1 }) := by
  have hcols : q.cols < q.markSize := by
    rw [h.markSize, h.cols]
    exact hroom
  rw [Query.insert, bindInput_bound q hv, assignNext_room q text hcols]
  simp only
  rw [if_neg (by rw [h.useFenc]; decide)]

theorem take_take_append (l r : List Str) (n : ℕ) : (l.take n ++ r).take n = (l ++ r).take n := by
  rw [List.take_append, List.take_append, List.take_take, Nat.min_self, List.length_take]
  congr 2
  omega

/-- One value, bound or refused. -/
theorem Holds.insert (h : Holds s texts q) (v : Input) :
    Holds s ((texts ++ v.boundText.toList).take (getMarkSize s)) (q.insert v).2 := by
  by_cases hfull : getMarkSize s ≤ texts.length
  · obtain ⟨e, hinsert⟩ := h.insert_refused v (.inl hfull)
    rw [hinsert, List.take_append_of_le_length hfull, List.take_of_length_le h.room]
    exact h
  · have hroom : texts.length < getMarkSize s := Nat.lt_of_not_le hfull
    cases hv : v.boundText with
    | none =>
      obtain ⟨e, hinsert⟩ := h.insert_refused v (.inr hv)
      rw [hinsert, Option.toList_none, List.append_nil, List.take_of_length_le h.room]
      exact h
    | some text =>
      have hlength : (texts ++ [text]).length ≤ getMarkSize s := by
        rw [List.length_append, List.length_singleton]
        exact hroom
      rw [h.insert_bound v hv hroom, Option.toList_some, List.take_of_length_le hlength]
      exact h.next text hroom

/-- **The texts of the bound values stand in order**, whatever was refused in between. -/
theorem Holds.insertAll (vs : List Input) : ∀ {texts : List Str} {q : Query}, Holds s texts q →
    Holds s ((texts ++ vs.filterMap Input.boundText).take (getMarkSize s)) (q.insertAll vs) := by
  induction vs with
  | nil =>
    intro texts q h
    rw [List.filterMap_nil, List.append_nil, List.take_of_length_le h.room]
    exact h
  | cons v vs ih =>
    intro texts q h
    have hrest := ih (h.insert v)
    have hvalues : (v :: vs).filterMap Input.boundText =
        v.boundText.toList ++ vs.filterMap Input.boundText := by
      rw [List.filterMap_cons]
      cases v.boundText <;> rfl
    rw [take_take_append, List.append_assoc, ← hvalues] at hrest
    exact hrest

end

/-- **What a query sends.**  For every statement and every sequence of values handed to it, some of
which may be refused: when there is a bound value for each mark, `get_query` returns the stretches
of the statement with the texts of the values between them; when there are fewer, it throws; and
when the marks are all taken, every further value throws and leaves the query as it is. -/
theorem get_query_inserted (s : Str) (vs : List Input) :
    ((taken s vs).length = getMarkSize s →
      ((Query.new s).insertAll vs).getQuery = .ok (weave (s.splitOn mark) (taken s vs))) ∧
    ((taken s vs).length < getMarkSize s → ((Query.new s).insertAll vs).getQuery =
      .error (ascii "must insert full value_ use << before exec ")) ∧
    ((taken s vs).length = getMarkSize s → ∀ v, ∃ e,
      ((Query.new s).insertAll vs).insert v = (.error e, (Query.new s).insertAll vs)) := by
  have h : Holds s (taken s vs) ((Query.new s).insertAll vs) := (Query.new_holds s).insertAll vs
  refine ⟨fun hexact => ?_, fun hfewer => ?_, fun hexact v => ?_⟩
  · have hcols : ((Query.new s).insertAll vs).cols = ((Query.new s).insertAll vs).markSize := by
      rw [h.cols, h.markSize, hexact]
    have hparams : ((Query.new s).insertAll vs).params = taken s vs := by
      rw [h.params, hexact, Nat.sub_self, List.replicate_zero, List.append_nil]
    rw [getQuery_eq_fillMarks _ hcols (by rw [hparams, hexact, h.markSize]), h.queryStr, hparams,
      fillMarks_eq_weave s _ hexact]
  · rw [Query.getQuery, if_pos]
    rw [h.cols, h.markSize]
    exact Nat.ne_of_lt hfewer
  · exact h.insert_refused v (.inl (Nat.le_of_eq hexact.symm))

/-- A `?` inside a value stays, and marks side by side and at both ends are filled in order. -/
example : ((Query.new (ascii "??x?")).insertAll
    [.string (ascii "?"), .unsupported [] [], .integer (-7), .chars [65, 0, 66]]).getQuery =
    .ok (ascii "?-7xA") := by decide +kernel

end Rojcpp.Sql
