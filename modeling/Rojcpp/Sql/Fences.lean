import Rojcpp.Sql.Marks

/-!
# Fences around values

A fence fed before a value asks for the value's text between two quoting characters.  `operator<<`
binds the value first, which moves on to the next column, and then puts the fence around the
parameter of that next column, which is still empty, and stores the result over the text just bound.
For the last value there is no next column, and the call throws.

`operator<<` for a fence has no return statement.  Whether the call still comes back with the query
is left to the compiler, so the model has it as a parameter.
-/

namespace Rojcpp.Sql

open Rojcpp.Lib

/-- A value of a sequence, with the fence fed immediately before it. -/
structure Fed where
  fenc : Option Fenc
  value : Input
  deriving DecidableEq, Repr

/-- What a sequence of `<<` stops at: an exception, or a call that does not come back. -/
inductive Halt where
  | threw (what : Str)
  | noReturn
  deriving DecidableEq, Repr

/-- `operator<<` for a fence, as it comes back or not. -/
def Query.insertFenc (comesBack : Bool) (q : Query) (f : Fenc) : Except Halt Query :=
  if comesBack then .ok (q.shiftLeftFenc f) else .error .noReturn

/-- `operator<<` for a value, as it throws or not. -/
def Query.insertValue (q : Query) (v : Input) : Except Halt Query :=
  match q.insert v with
  | (.error e, _) => .error (.threw e)
  | (.ok _, q) => .ok q

/-- `operator<<` for the fence, where there is one, and then for the value. -/
def Query.insertFed (comesBack : Bool) (q : Query) (x : Fed) : Except Halt Query :=
  match x.fenc with
  | none => q.insertValue x.value
  | some f => (q.insertFenc comesBack f).bind fun q => q.insertValue x.value

/-- Values with their fences, one after the other. -/
def Query.insertAllFed (comesBack : Bool) (q : Query) (xs : List Fed) : Except Halt Query :=
  xs.foldlM (Query.insertFed comesBack) q

/-- The parameter a fed value is meant to become. -/
def Fed.meant (x : Fed) : Option Str :=
  x.value.boundText.map fun text => match x.fenc with
    | none => text
    | some f => f.char :: text ++ [f.char]

/-- After the sequence, every parameter is what its value is meant to become. -/
def FencedAsMeant (comesBack : Bool) (s : Str) (xs : List Fed) : Prop :=
  ∃ q, (Query.new s).insertAllFed comesBack xs = .ok q ∧ q.params.map some = xs.map Fed.meant

/-- A fed value the fence does no harm to, with or without a column behind it: it has no fence, or
its text is empty and there is such a column. -/
def Fed.Spared (comesBack : Bool) (x : Fed) (behind : Prop) : Prop :=
  x.value.boundText.isSome ∧
    (x.fenc.isSome → comesBack = true ∧ x.value.boundText = some [] ∧ behind)

/-! ### One value -/

section
variable {comesBack : Bool} {s : Str} {texts : List Str} {q : Query}

theorem insertValue_ok {v : Input} {q' : Query} (h : q.insert v = (.ok (), q')) :
    q.insertValue v = .ok q' := by
  rw [Query.insertValue, h]

theorem insertValue_error {v : Input} {e : Str} {q' : Query} (h : q.insert v = (.error e, q')) :
    q.insertValue v = .error (.threw e) := by
  rw [Query.insertValue, h]

theorem insertFed_plain (comesBack : Bool) (q : Query) (v : Input) :
    q.insertFed comesBack ⟨none, v⟩ = q.insertValue v := rfl

theorem insertFed_fenced (comesBack : Bool) (q : Query) (f : Fenc) (v : Input) :
    q.insertFed comesBack ⟨some f, v⟩ =
      if comesBack then (q.shiftLeftFenc f).insertValue v else .error .noReturn := by
  cases comesBack with
  | false => rfl
  | true => rfl

/-- What the call for a value does with a pending fence, where there is a column behind. -/
theorem insert_pending (q : Query) {v : Input} {text : Str} (hv : v.boundText = some text)
    (hfenc : q.useFenc = true) (hbehind : q.cols + 1 < q.markSize) :
    q.insert v = (.ok (), { q with
      params := q.params.set q.cols
        (q.fencChar :: (q.params.set q.cols text).getD (q.cols + 1) [] ++ [q.fencChar])
      cols := q.cols + 1, useFenc := false }) := by
  have hnext := checkCol_ok { q with params := q.params.set q.cols text, cols := q.cols + 1 }
    (q.cols + 1) hbehind
  have hback := checkCol_ok { q with params := q.params.set q.cols text, cols := q.cols + 1 }
    (q.cols + 1 - 1) (Nat.lt_of_succ_lt hbehind)
  rw [Query.insert, bindInput_bound q hv, assignNext_room q text (Nat.lt_of_succ_lt hbehind)]
  simp only [hfenc, if_true] at hnext hback ⊢
  rw [hnext, hback, Nat.add_sub_cancel, List.set_set]

/-- Where there is none, it throws. -/
theorem insert_pending_last (q : Query) (v : Input) (hfenc : q.useFenc = true)
    (hlast : q.markSize ≤ q.cols + 1) : ∃ e q', q.insert v = (.error e, q') := by
  rw [Query.insert]
  rcases bindInput_eq q v with ⟨text, -, hbind⟩ | ⟨-, e, hbind⟩
  · rw [hbind]
    by_cases hroom : q.cols < q.markSize
    · have hfull := checkCol_full
        { q with params := q.params.set q.cols text, cols := q.cols + 1 } (q.cols + 1) hlast
      rw [assignNext_room q text hroom]
      simp only [hfenc, if_true] at hfull ⊢
      rw [hfull]
      exact ⟨_, _, rfl⟩
    · obtain ⟨e, hassign⟩ := assignNext_full q text (Nat.le_of_not_lt hroom)
      rw [hassign]
      exact ⟨e, q, rfl⟩
  · rw [hbind]
    exact ⟨e, q, rfl⟩

/-- The column behind the bound one is still empty. -/
theorem Holds.behind_empty (h : Holds s texts q) (text : Str) :
    (q.params.set q.cols text).getD (q.cols + 1) [] = [] := by
  rw [List.getD_eq_getElem?_getD, List.getElem?_set_ne (Nat.ne_of_lt (Nat.lt_succ_self _)),
    h.params, h.cols, List.getElem?_append_right (Nat.le_succ _), List.getElem?_replicate]
  split <;> rfl

/-- A fence puts its two characters over the text of the value. -/
theorem Holds.insert_fenced (h : Holds s texts q) (f : Fenc) (v : Input) {text : Str}
    (hv : v.boundText = some text) (hbehind : texts.length + 1 < getMarkSize s) :
    ∃ q', (q.shiftLeftFenc f).insert v = (.ok (), q') ∧
      Holds s (texts ++ [[f.char, f.char]]) q' := by
  have hinsert := insert_pending (q.shiftLeftFenc f) hv rfl (by
    show q.cols + 1 < q.markSize
    rw [h.cols, h.markSize]
    exact hbehind)
  have hempty : ((q.shiftLeftFenc f).params.set (q.shiftLeftFenc f).cols text).getD
      ((q.shiftLeftFenc f).cols + 1) [] = [] := h.behind_empty text
  rw [hempty] at hinsert
  have hheld : Holds s texts { q with fencChar := f.char } :=
    ⟨h.queryStr, h.useFenc, h.cols, h.room, h.params⟩
  have hnext := hheld.next [f.char, f.char] (Nat.lt_of_succ_lt hbehind)
  exact ⟨_, hinsert, ⟨hnext.queryStr, rfl, hnext.cols, hnext.room, hnext.params⟩⟩

/-- For the last value the fence asks for a column there is none of. -/
theorem Holds.insert_fenced_last (h : Holds s texts q) (f : Fenc) (v : Input)
    (hlast : getMarkSize s ≤ texts.length + 1) :
    ∃ e q', (q.shiftLeftFenc f).insert v = (.error e, q') := by
  refine insert_pending_last (q.shiftLeftFenc f) v rfl ?_
  show q.markSize ≤ q.cols + 1
  rw [h.markSize, h.cols]
  exact hlast

/-- A value the fence does no harm to becomes what it is meant to become. -/
theorem Holds.insertFed_spared (h : Holds s texts q) {x : Fed}
    (hroom : texts.length < getMarkSize s)
    (hx : x.Spared comesBack (texts.length + 1 < getMarkSize s)) :
    ∃ q' text, q.insertFed comesBack x = .ok q' ∧ x.meant = some text ∧
      Holds s (texts ++ [text]) q' := by
  obtain ⟨fenc, v⟩ := x
  obtain ⟨hsome, hfenc⟩ := hx
  cases fenc with
  | none =>
    obtain ⟨text, hv⟩ := Option.isSome_iff_exists.mp hsome
    refine ⟨_, text, ?_, ?_, h.next text hroom⟩
    · exact insertValue_ok (h.insert_bound v hv hroom)
    · rw [Fed.meant, hv]
      rfl
  | some f =>
    obtain ⟨hback, hv, hbehind⟩ := hfenc rfl
    obtain ⟨q', hinsert, hholds⟩ := h.insert_fenced f v hv hbehind
    refine ⟨q', [f.char, f.char], ?_, ?_, hholds⟩
    · rw [insertFed_fenced, if_pos hback]
      exact insertValue_ok hinsert
    · rw [Fed.meant, hv]
      rfl

/-- A value the sequence gets past has left one text, and where that is the one it is meant to
leave, the fence did no harm. -/
theorem Holds.insertFed_ok (h : Holds s texts q) {x : Fed} {q' : Query}
    (hroom : texts.length < getMarkSize s) (hok : q.insertFed comesBack x = .ok q') :
    ∃ text, Holds s (texts ++ [text]) q' ∧
      (x.meant = some text → x.Spared comesBack (texts.length + 1 < getMarkSize s)) := by
  obtain ⟨fenc, v⟩ := x
  cases fenc with
  | none =>
    rw [insertFed_plain] at hok
    cases hv : v.boundText with
    | none =>
      obtain ⟨e, hinsert⟩ := h.insert_refused v (.inr hv)
      rw [insertValue_error hinsert] at hok
      cases hok
    | some text =>
      rw [insertValue_ok (h.insert_bound v hv hroom)] at hok
      cases hok
      refine ⟨text, h.next text hroom, fun _ => ⟨?_, nofun⟩⟩
      rw [hv]
      rfl
  | some f =>
    rw [insertFed_fenced] at hok
    by_cases hback : comesBack = true
    · rw [if_pos hback] at hok
      by_cases hbehind : texts.length + 1 < getMarkSize s
      · cases hv : v.boundText with
        | none =>
          obtain ⟨e, hbind⟩ := bindInput_unsupported (q.shiftLeftFenc f) hv
          rw [Query.insertValue, Query.insert, hbind] at hok
          cases hok
        | some text =>
          obtain ⟨q'', hinsert, hholds⟩ := h.insert_fenced f v hv hbehind
          rw [insertValue_ok hinsert] at hok
          cases hok
          refine ⟨_, hholds, fun hmeant => ?_⟩
          have hlength := congrArg (Option.map List.length) hmeant
          rw [Fed.meant, hv] at hlength
          simp only [Option.map_some, List.length_append, List.length_cons, List.length_nil,
            Option.some.injEq] at hlength
          have hempty : text = [] := List.length_eq_zero_iff.mp (by omega)
          rw [hempty] at hv
          exact ⟨by rw [hv]; rfl, fun _ => ⟨hback, hv, hbehind⟩⟩
      · obtain ⟨e, bound, hinsert⟩ := h.insert_fenced_last f v (Nat.le_of_not_lt hbehind)
        rw [insertValue_error hinsert] at hok
        cases hok
    · rw [if_neg hback] at hok
      cases hok

/-! ### A sequence -/

theorem insertAllFed_cons (comesBack : Bool) (q : Query) (x : Fed) (xs : List Fed) :
    q.insertAllFed comesBack (x :: xs) =
      (q.insertFed comesBack x).bind fun q => q.insertAllFed comesBack xs := by
  rw [Query.insertAllFed, List.foldlM_cons]
  rfl

/-- Values no fence does harm to become what they are meant to become. -/
theorem Holds.insertAllFed_spared (xs : List Fed) : ∀ {texts : List Str} {q : Query},
    Holds s texts q → texts.length + xs.length = getMarkSize s →
    (∀ (k : ℕ) (x : Fed), xs[k]? = some x →
      x.Spared comesBack (texts.length + k + 1 < getMarkSize s)) →
    ∃ q' texts', q.insertAllFed comesBack xs = .ok q' ∧ texts'.map some = xs.map Fed.meant ∧
      Holds s (texts ++ texts') q' := by
  induction xs with
  | nil =>
    intro texts q h _ _
    exact ⟨q, [], rfl, rfl, by rw [List.append_nil]; exact h⟩
  | cons x xs ih =>
    intro texts q h hlen hspared
    rw [List.length_cons] at hlen
    obtain ⟨q₁, text, hok, hmeant, h₁⟩ := h.insertFed_spared (by omega) (hspared 0 x rfl)
    have hlen₁ : (texts ++ [text]).length = texts.length + 1 := List.length_append
    have hrest : ∀ (k : ℕ) (y : Fed), xs[k]? = some y →
        y.Spared comesBack ((texts ++ [text]).length + k + 1 < getMarkSize s) := by
      intro k y hy
      have hplace : (texts ++ [text]).length + k + 1 = texts.length + (k + 1) + 1 := by omega
      rw [hplace]
      exact hspared (k + 1) y hy
    obtain ⟨q', texts', hrun, htexts, h'⟩ := ih h₁ (by omega) hrest
    refine ⟨q', text :: texts', ?_, ?_, ?_⟩
    · rw [insertAllFed_cons, hok]
      exact hrun
    · rw [List.map_cons, List.map_cons, htexts, hmeant]
    · rw [List.append_assoc] at h'
      exact h'

/-- A sequence that comes to its end has left one text for each value, and where these are the ones
they are meant to be, no fence did harm. -/
theorem Holds.insertAllFed_ok (xs : List Fed) : ∀ {texts : List Str} {q q' : Query},
    Holds s texts q → texts.length + xs.length = getMarkSize s →
    q.insertAllFed comesBack xs = .ok q' →
    ∃ texts', Holds s (texts ++ texts') q' ∧ texts'.length = xs.length ∧
      (texts'.map some = xs.map Fed.meant →
        ∀ (k : ℕ) (x : Fed), xs[k]? = some x →
          x.Spared comesBack (texts.length + k + 1 < getMarkSize s)) := by
  induction xs with
  | nil =>
    intro texts q q' h _ hok
    cases hok
    refine ⟨[], by rw [List.append_nil]; exact h, rfl, fun _ k x hx => ?_⟩
    rw [List.getElem?_nil] at hx
    cases hx
  | cons x xs ih =>
    intro texts q q' h hlen hok
    rw [List.length_cons] at hlen
    rw [insertAllFed_cons] at hok
    cases hfirst : q.insertFed comesBack x with
    | error e =>
      rw [hfirst] at hok
      cases hok
    | ok q₁ =>
      rw [hfirst] at hok
      obtain ⟨text, h₁, hhead⟩ := h.insertFed_ok (by omega) hfirst
      have hlen₁ : (texts ++ [text]).length = texts.length + 1 := List.length_append
      obtain ⟨texts', h', hsize, htail⟩ := ih h₁ (by omega) hok
      refine ⟨text :: texts', ?_, ?_, fun hmeant k y hy => ?_⟩
      · rw [List.append_assoc] at h'
        exact h'
      · rw [List.length_cons, List.length_cons, hsize]
      · rw [List.map_cons, List.map_cons, List.cons.injEq] at hmeant
        cases k with
        | zero =>
          cases hy
          exact hhead hmeant.1.symm
        | succ k =>
          have hplace : texts.length + (k + 1) + 1 = (texts ++ [text]).length + k + 1 := by omega
          rw [hplace]
          exact htail hmeant.2 k y hy

end

/-- **When fences work.**  For every statement and every sequence of as many values as it has marks,
each with a fence before it or not, the sequence comes to its end without an exception and every
parameter is what its value is meant to become if and only if every value is of a type `bind` stores
and every fenced value has an empty text and is not the last one, and the call that takes the fence
comes back. -/
theorem fenced_as_meant_iff (comesBack : Bool) (s : Str) (xs : List Fed)
    (hlen : xs.length = getMarkSize s) :
    FencedAsMeant comesBack s xs ↔
      ∀ (k : ℕ) (x : Fed), xs[k]? = some x → x.value.boundText.isSome ∧
        (x.fenc.isSome →
          comesBack = true ∧ x.value.boundText = some [] ∧ k + 1 < xs.length) := by
  have hplace : ∀ k, ([] : List Str).length + k + 1 = k + 1 := by
    intro k
    rw [List.length_nil, Nat.zero_add]
  have hstart := Query.new_holds s
  have hfit : ([] : List Str).length + xs.length = getMarkSize s := by
    rw [List.length_nil, Nat.zero_add, hlen]
  have hparams : ∀ {texts : List Str} {q : Query}, Holds s texts q →
      texts.length = xs.length → q.params = texts := by
    intro texts q h hsize
    rw [h.params, hsize, hlen, Nat.sub_self, List.replicate_zero, List.append_nil]
  constructor
  · rintro ⟨q, hok, hmeant⟩ k x hx
    obtain ⟨texts, h, hsize, hspared⟩ := hstart.insertAllFed_ok xs hfit hok
    rw [hparams h hsize] at hmeant
    have hkept := hspared hmeant k x hx
    rw [hplace, ← hlen] at hkept
    exact hkept
  · intro hspared
    have hkept : ∀ (k : ℕ) (x : Fed), xs[k]? = some x →
        x.Spared comesBack (([] : List Str).length + k + 1 < getMarkSize s) := by
      intro k x hx
      rw [hplace, ← hlen]
      exact hspared k x hx
    obtain ⟨q, texts, hok, hmeant, h⟩ := hstart.insertAllFed_spared xs hfit hkept
    have hsize : texts.length = xs.length := by
      rw [← List.length_map (f := some), hmeant, List.length_map]
    exact ⟨q, hok, by rw [hparams h hsize]; exact hmeant⟩

/-- A fenced empty text with a plain one behind it. -/
theorem fenced_as_meant_iff_empty :
    FencedAsMeant true (ascii "?,?")
      [⟨some .grave, .string []⟩, ⟨none, .string (ascii "a")⟩] :=
  (fenced_as_meant_iff true (ascii "?,?") _ rfl).mpr fun k _ hx =>
    match k, hx with
    | 0, rfl => ⟨rfl, fun _ => ⟨rfl, rfl, Nat.le_refl 2⟩⟩
    | 1, rfl => ⟨rfl, nofun⟩

/-- A quoted value under the only mark: the call throws, also where the fence's call came back. -/
theorem fenced_value_throws :
    [(⟨some .quote, .string (ascii "a")⟩ : Fed)].length = getMarkSize (ascii "?") ∧
      ∀ comesBack, ¬ FencedAsMeant comesBack (ascii "?")
        [⟨some .quote, .string (ascii "a")⟩] := by
  refine ⟨rfl, fun comesBack hmeant => ?_⟩
  obtain ⟨q, hok, -⟩ := hmeant
  cases comesBack with
  | false => cases hok
  | true => cases hok

/-- Before any other value, the fence replaces the text. -/
example : (match (Query.new (ascii "??")).insertAllFed true
      [⟨some .quote, .string (ascii "a")⟩, ⟨none, .integer 7⟩] with
    | .ok q => q.params
    | .error _ => []) = [ascii "\"\"", ascii "7"] := by decide +kernel

end Rojcpp.Sql
