import Rojcpp.Cpp.Text

/-!
# The `query` class template of the database layer

A `query` is compiled from a statement with `?` marks.  Values are fed with `<<`, which stores
the text of the value under the next column, and `get_query` pastes the texts over the marks: it
walks over the positions of the marks (`binders_seq`) and appends the stretch of the statement
before each mark and the parameter of that mark.

`getQuery_eq_fillMarks` replaces the walk over positions by a walk over the statement itself,
and `feed_getQuery` says what a query built by feeding as many values as there are marks sends to
the database.  No step escapes anything.
-/

namespace Rojcpp.Sql

open Rojcpp.Lib

/-- The quoting characters a fence puts around the next value. -/
inductive Fenc where
  | grave
  | singleQuote
  | quote
  deriving DecidableEq, Repr

/-- The byte behind a fence. -/
def Fenc.char : Fenc → UInt8
  | .grave => '`'
  | .singleQuote => '\''
  | .quote => '"'

/-- The values `bind` supports that the program feeds. -/
inductive SqlValue where
  | int (x : Int32)
  | ull (x : UInt64)
  | str (s : Str)
  deriving DecidableEq, Repr

/-- The text `bind` stores for a value: `std::to_string` of a number, a string as it is. -/
def SqlValue.text : SqlValue → Str
  | .int x => toStringInt x
  | .ull x => toStringULL x
  | .str s => s

/-- The data of a `query` object. -/
structure Query where
  queryStr : Str
  params : List Str
  cols : ℕ
  useFenc : Bool
  fencChar : UInt8
  deriving DecidableEq, Repr

/-- The mark byte. -/
abbrev mark : UInt8 := '?'

/-- `get_mark_size`. -/
def getMarkSize (s : Str) : ℕ := s.count mark

/-- The statement's `mark_size_`. -/
def Query.markSize (q : Query) : ℕ := getMarkSize q.queryStr

/-- A new query over a statement. -/
def Query.new (s : Str) : Query := ⟨s, List.replicate (getMarkSize s) [], 0, false, 0⟩

/-- `at`, as the test of the column it may throw on. -/
def Query.checkCol (q : Query) (col : ℕ) : Except Str Unit :=
  if col < q.markSize then .ok () else .error (ascii "overload cols size :" ++ decimal q.markSize)

/-- `bind`: the text of the value goes into the next column. -/
def Query.bind (q : Query) (v : SqlValue) : Except Str Query := do
  q.checkCol q.cols
  return { q with params := q.params.set q.cols v.text, cols := q.cols + 1 }

/-- `operator<<` for a value.  A pending fence is put around the column behind the bound one, and
the result overwrites the bound one. -/
def Query.shiftLeft (q : Query) (v : SqlValue) : Except Str Query := do
  let q ← q.bind v
  if q.useFenc then
    q.checkCol (q.cols - 1)
    q.checkCol q.cols
    let fenced := q.fencChar :: q.params.getD q.cols [] ++ [q.fencChar]
    return { q with params := q.params.set (q.cols - 1) fenced, useFenc := false }
  else
    return q

/-- `operator<<` for a fence. -/
def Query.shiftLeftFenc (q : Query) (f : Fenc) : Query :=
  { q with useFenc := true, fencChar := f.char }

/-- Feeding a list of values. -/
def Query.feed (q : Query) (vs : List SqlValue) : Except Str Query := vs.foldlM Query.shiftLeft q

/-- `binders_seq`: the positions of the marks, counted from `i`. -/
def bindersSeq : ℕ → Str → List ℕ
  | _, [] => []
  | i, c :: s => if c = mark then i :: bindersSeq (i + 1) s else bindersSeq (i + 1) s

/-- One round of the loop of `get_query`: the stretch up to the mark and the parameter. -/
def pasteOne (s : Str) (acc : ℕ × Str) (m : ℕ × Str) : ℕ × Str :=
  (m.1 + 1, acc.2 ++ (s.drop acc.1).take (m.1 - acc.1) ++ m.2)

/-- `get_query`. -/
def Query.getQuery (q : Query) : Except Str Str :=
  if q.cols ≠ q.markSize then .error (ascii "must insert full value_ use << before exec ")
  else
    let acc := ((bindersSeq 0 q.queryStr).zip q.params).foldl (pasteOne q.queryStr) (0, [])
    .ok (if acc.1 < q.queryStr.length then acc.2 ++ q.queryStr.drop acc.1 else acc.2)

/-- The statement with its marks replaced in order. -/
def fillMarks : Str → List Str → Str
  | [], _ => []
  | c :: s, ps => if c = mark then ps.headD [] ++ fillMarks s ps.tail else c :: fillMarks s ps

/-! ### Pasting -/

/-- The loop of `get_query` over the rest `s` of a statement whose first part `done` is behind
it, with the part of `done` from `pre` on not appended yet. -/
theorem foldl_pasteOne (s : Str) : ∀ (done : Str) (ps : List Str) (pre : ℕ) (last : Str),
    pre ≤ done.length → ps.length = getMarkSize s →
    let acc := ((bindersSeq done.length s).zip ps).foldl (pasteOne (done ++ s)) (pre, last)
    acc.2 ++ (done ++ s).drop acc.1 = last ++ done.drop pre ++ fillMarks s ps := by
  induction s with
  | nil =>
    intro done ps pre last _ _
    simp [bindersSeq, fillMarks]
  | cons c s ih =>
    intro done ps pre last hpre hlen
    by_cases hc : c = mark
    · subst hc
      obtain ⟨p, ps, rfl⟩ : ∃ p ps', ps = p :: ps' := by
        cases ps with
        | nil => simp [getMarkSize] at hlen
        | cons p ps => exact ⟨p, ps, rfl⟩
      have hlen' : ps.length = getMarkSize s := by simpa [getMarkSize] using hlen
      have h := ih (done ++ [mark]) ps (done.length + 1)
        (last ++ done.drop pre ++ p) (by simp) hlen'
      have htake : ((done ++ mark :: s).drop pre).take (done.length - pre) = done.drop pre := by
        rw [List.drop_append_of_le_length hpre, List.take_append_of_le_length (by simp),
          List.take_of_length_le (by simp)]
      simp only [List.length_append, List.length_cons, List.length_nil, List.append_assoc,
        List.singleton_append, zero_add] at h
      simp only [bindersSeq, if_true, List.zip_cons_cons, List.foldl_cons, pasteOne, htake,
        fillMarks, List.headD_cons, List.tail_cons, List.append_assoc]
      rw [h]
      simp
    · have hlen' : ps.length = getMarkSize s := by
        simpa [getMarkSize, List.count_cons, hc] using hlen
      have h := ih (done ++ [c]) ps pre last (by simp; omega) hlen'
      simp only [List.length_append, List.length_cons, List.length_nil, List.append_assoc,
        List.singleton_append, zero_add] at h
      simp only [bindersSeq, if_neg hc, fillMarks]
      rw [h, List.drop_append_of_le_length hpre]
      simp

/-- With a parameter for every mark, `get_query` replaces the marks in order and leaves the rest
of the statement alone. -/
theorem getQuery_eq_fillMarks (q : Query) (hcols : q.cols = q.markSize)
    (hparams : q.params.length = q.markSize) :
    q.getQuery = .ok (fillMarks q.queryStr q.params) := by
  have h := foldl_pasteOne q.queryStr [] q.params 0 [] (by simp) hparams
  simp only [List.length_nil, List.nil_append, List.drop_nil] at h
  rw [Query.getQuery, if_neg (by simp [hcols])]
  simp only [← h]
  split
  · rfl
  · rename_i hle
    rw [List.drop_eq_nil_of_le (by omega), List.append_nil]

/-! ### Feeding -/

theorem checkCol_ok (q : Query) (col : ℕ) (h : col < q.markSize) : q.checkCol col = .ok () := by
  rw [Query.checkCol, if_pos h]

theorem bind_ok (q : Query) (v : SqlValue) (h : q.cols < q.markSize) :
    q.bind v = .ok { q with params := q.params.set q.cols v.text, cols := q.cols + 1 } := by
  rw [Query.bind, checkCol_ok q q.cols h]
  rfl

theorem shiftLeft_unfenced (q : Query) (v : SqlValue) (h : q.cols < q.markSize)
    (hfenc : q.useFenc = false) :
    q.shiftLeft v = .ok { q with params := q.params.set q.cols v.text, cols := q.cols + 1 } := by
  rw [Query.shiftLeft, bind_ok q v h]
  simp only [bind, Except.bind, hfenc, Bool.false_eq_true, if_false]
  rfl

/-- Feeding one value to a query that holds the texts `done` and room for more. -/
theorem shiftLeft_next (q : Query) (v : SqlValue) (done rest : List Str) (p : Str)
    (hfenc : q.useFenc = false) (hcols : q.cols = done.length)
    (hparams : q.params = done ++ p :: rest) (hsize : q.params.length = q.markSize) :
    q.shiftLeft v =
      .ok { q with params := done ++ v.text :: rest, cols := done.length + 1 } := by
  have hlt : q.cols < q.markSize := by
    rw [← hsize, hparams, hcols, List.length_append, List.length_cons]
    omega
  have hset : q.params.set q.cols v.text = done ++ v.text :: rest := by
    rw [hparams, hcols, List.set_append_right _ _ (le_refl _), Nat.sub_self, List.set_cons_zero]
  rw [shiftLeft_unfenced q v hlt hfenc, hset, hcols]

theorem feed_next (vs : List SqlValue) : ∀ (q : Query) (done : List Str),
    q.useFenc = false → q.cols = done.length →
    q.params = done ++ List.replicate vs.length [] → q.params.length = q.markSize →
    q.feed vs = .ok { q with params := done ++ vs.map SqlValue.text
                             cols := done.length + vs.length } := by
  induction vs with
  | nil =>
    intro q done _ hcols hparams _
    cases q
    simp only [List.length_nil, List.replicate_zero, List.append_nil] at hcols hparams
    simp [Query.feed, hcols, hparams, pure, Except.pure]
  | cons v vs ih =>
    intro q done hfenc hcols hparams hsize
    rw [List.length_cons, List.replicate_succ] at hparams
    have hstep := shiftLeft_next q v done _ [] hfenc hcols hparams hsize
    have hrec := ih { q with params := done ++ v.text :: List.replicate vs.length []
                             cols := done.length + 1 } (done ++ [v.text]) hfenc (by simp)
      (by simp) (by rw [hparams] at hsize; simpa [Query.markSize] using hsize)
    simp only [Query.feed] at hrec
    simp only [Query.feed, List.foldlM_cons, hstep, bind, Except.bind, hrec]
    simp only [List.length_append, List.length_cons, List.length_nil, List.map_cons,
      List.append_assoc, List.singleton_append, Nat.add_assoc, Nat.add_comm 1]

/-- **What a fed query sends.**  Feeding as many values as there are marks and asking for the
statement gives the statement with the texts of the values pasted over the marks. -/
theorem feed_getQuery (s : Str) (vs : List SqlValue) (hlen : vs.length = getMarkSize s) :
    (Query.new s).feed vs >>= Query.getQuery = .ok (fillMarks s (vs.map SqlValue.text)) := by
  have h := feed_next vs (Query.new s) [] rfl rfl (by simp [Query.new, hlen])
    (by simp [Query.new, Query.markSize])
  rw [h]
  simp only [bind, Except.bind]
  rw [getQuery_eq_fillMarks]
  · simp [Query.new]
  · simp [Query.new, Query.markSize, hlen]
  · simp [Query.new, Query.markSize, hlen]

end Rojcpp.Sql
