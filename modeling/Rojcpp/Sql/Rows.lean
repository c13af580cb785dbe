import Mathlib.Data.List.TakeWhile
import Rojcpp.Cpp.Files
import Rojcpp.Sql.Query

/-!
# Results of statements

`query::exec` sends the statement and makes a value of the type the query was declared with of what
comes back: nothing, one number, one row, or a table.  The server sends a value as text, and `fetch`
reads it back by the type of its column: a number through a string stream, a string as it is.  A
`NULL` is a null pointer, which `fetch` looks for when it reads a string and not when it reads a
number.

`execSchema_table` says which tables come back, and as what, and `execRow_table` which rows.
-/

namespace Rojcpp.Sql

open Rojcpp.Lib

/-! ### Columns and rows -/

/-- The types of columns the program declares. -/
inductive ColType where
  | int
  | ull
  | str
  deriving DecidableEq, Repr

/-- A value of a column. -/
def ColType.Value : ColType → Type
  | .int => Int32
  | .ull => UInt64
  | .str => Str

/-- `column<Name, Type>`. -/
structure Column where
  name : Str
  type : ColType
  deriving DecidableEq, Repr

/-- `row<Col, Next>` down to `void_row`, with what stands in a column of each type. -/
def RowOf (F : ColType → Type) : List Column → Type
  | [] => Unit
  | c :: cs => F c.type × RowOf F cs

/-- The row a query fills. -/
abbrev Row : List Column → Type := RowOf ColType.Value

/-- A value of a table, which may be `NULL`. -/
abbrev Nullable (t : ColType) : Type := Option t.Value

/-! ### What the client library gives -/

/-- A cell of a result: the text the server sent, or a null pointer. -/
abbrev Cell := Option Str

/-- What `mysql_store_result` gives: the rows, or a null pointer, beside which the library knows the
number of columns the statement has. -/
inductive StoreResult where
  | null (fieldCount : ℕ)
  | rows (cols : ℕ) (rows : List { row : List Cell // row.length = cols })

/-- A connection: what a statement leaves, or the library's error. -/
abbrev Backend := Str → Except Str StoreResult

/-- How a call of the layer ends when it gives no value: with an exception, by its class, or with
something undefined. -/
inductive Failure where
  | cppdbError (what : Str)
  | zeroRow
  | zeroFiled
  | invalidColumn
  | lengthError
  | undefined
  deriving DecidableEq, Repr

/-- `result`, with the rows `next` has not reached. -/
structure ResultSet where
  cols : ℕ
  rows : List { row : List Cell // row.length = cols }

/-- The constructor of `result`. -/
def ResultSet.new : StoreResult → Except Failure ResultSet
  | .null fieldCount => if fieldCount = 0 then .error .zeroFiled else .ok ⟨fieldCount, []⟩
  | .rows cols rows => .ok ⟨cols, rows⟩

/-- `at`, in the row `next` has reached. -/
def cellAt (row : List Cell) (col : ℕ) : Except Failure Cell :=
  match row[col]? with
  | some cell => .ok cell
  | none => .error .invalidColumn

/-- `stream >> t` for an `unsigned long long` and a fresh stream; `none` is a stream that failed.  A
minus sign is taken, and the number negated in the type. -/
def extractULL (s : Str) : Option UInt64 :=
  match (scanInt (s.dropWhile isSpace)).1 with
  | none => none
  | some v => if v.natAbs < 2 ^ 64 then some (UInt64.ofInt v) else none

/-- `fetch` of an `int`: the value and whether it was read. -/
def fetchInt : Cell → Except Failure (Int32 × Bool)
  | none => .error .undefined
  | some s =>
    let r := (IStream.ofStr (cStr s)).extractInt 0
    .ok (if r.2.fail then (0, false) else (r.1, true))

/-- `fetch` of an `unsigned long long`. -/
def fetchULL : Cell → Except Failure (UInt64 × Bool)
  | none => .error .undefined
  | some s =>
    match extractULL (cStr s) with
    | some n => .ok (n, true)
    | none => .ok (0, false)

/-- `fetch` of a string.  The length is kept in an `int`, and taken as a size again. -/
def fetchStr : Cell → Except Failure (Str × Bool)
  | none => .ok ([], false)
  | some s =>
    let len := (Int32.ofNat s.length).toInt
    if len < 0 then .error .lengthError else .ok (s.take len.toNat, true)

/-- `fetch` by the type of the column. -/
def fetch : (t : ColType) → Cell → Except Failure (t.Value × Bool)
  | .int => fetchInt
  | .ull => fetchULL
  | .str => fetchStr

/-- `my_set_each_row_column`, from the column `i` of the result on. -/
def fetchRow (row : List Cell) : (cs : List Column) → ℕ → Except Failure (Row cs)
  | [], _ => .ok ()
  | c :: cs, i => do
    let cell ← cellAt row i
    let x ← fetch c.type cell
    let rest ← fetchRow row cs (i + 1)
    return (x.1, rest)

/-! ### `exec` -/

/-- What `get_query` gives, sent. -/
def send (b : Backend) (query : Except Str Str) : Except Failure StoreResult := do
  let text ← query.mapError .cppdbError
  (b text).mapError .cppdbError

/-- `get_raw_result`. -/
def getRawResult (b : Backend) (query : Except Str Str) : Except Failure ResultSet := do
  let stored ← send b query
  ResultSet.new stored

/-- `exec` of a query that is declared with `void`. -/
def execVoid (b : Backend) (query : Except Str Str) : Except Failure Unit := do
  let _ ← send b query
  return ()

/-- `exec` of a query that is declared with one value. -/
def execValue (t : ColType) (b : Backend) (query : Except Str Str) : Except Failure t.Value := do
  let r ← getRawResult b query
  match r.rows with
  | [] => .error .zeroRow
  | row :: _ =>
    let cell ← cellAt row.1 0
    let x ← fetch t cell
    return x.1

/-- `exec` of a query that is declared with a row.  Without a row it throws another class than
`exec` of one value. -/
def execRow (cs : List Column) (b : Backend) (query : Except Str Str) :
    Except Failure (Row cs) := do
  let r ← getRawResult b query
  match r.rows with
  | [] => .error (.cppdbError (ascii "not get value"))
  | row :: _ => fetchRow row.1 cs 0

/-- The loop over the rows of a table. -/
def fetchRows (cs : List Column) : List (List Cell) → Except Failure (List (Row cs))
  | [] => .ok []
  | row :: rows => do
    let x ← fetchRow row cs 0
    let xs ← fetchRows cs rows
    return x :: xs

/-- `exec` of a query that is declared with a `schema`. -/
def execSchema (cs : List Column) (b : Backend) (query : Except Str Str) :
    Except Failure (List (Row cs)) := do
  let r ← getRawResult b query
  fetchRows cs (r.rows.map Subtype.val)

/-! ### Reading what was printed -/

/-- The value as `bind` takes it. -/
def ColType.toSql : (t : ColType) → t.Value → SqlValue
  | .int, x => .int x
  | .ull, x => .ull x
  | .str, s => .str s

/-- The text the server sends for a value, which is the one `bind` stores. -/
def ColType.text (t : ColType) (x : t.Value) : Str := (t.toSql x).text

/-- `T{}`. -/
def ColType.zero : (t : ColType) → t.Value
  | .int => (0 : Int32)
  | .ull => (0 : UInt64)
  | .str => ([] : Str)

/-- A value whose text has a length that is an `int`. -/
def ColType.Fits (t : ColType) (x : t.Value) : Prop := (t.text x).length < 2 ^ 31

/-- A value that is there, where `fetch` does not look. -/
def ColType.readable : (t : ColType) → Nullable t → Bool
  | .int, x => x.isSome
  | .ull, x => x.isSome
  | .str, _ => true

/-- The cells of a row of a table. -/
def cells : (cs : List Column) → RowOf Nullable cs → List Cell
  | [], _ => []
  | c :: cs, x => x.1.map c.type.text :: cells cs x.2

/-- The row with every `NULL` replaced. -/
def ofNullable : (cs : List Column) → RowOf Nullable cs → Row cs
  | [], _ => ()
  | c :: cs, x => (x.1.getD c.type.zero, ofNullable cs x.2)

/-- No number of the row is `NULL`. -/
def numbersThere : (cs : List Column) → RowOf Nullable cs → Bool
  | [], _ => true
  | c :: cs, x => c.type.readable x.1 && numbersThere cs x.2

/-- Every text of the row fits. -/
def RowFits : (cs : List Column) → RowOf Nullable cs → Prop
  | [], _ => True
  | c :: cs, x => (∀ y ∈ x.1, c.type.Fits y) ∧ RowFits cs x.2

theorem cells_length (cs : List Column) :
    ∀ x : RowOf Nullable cs, (cells cs x).length = cs.length := by
  induction cs with
  | nil => exact fun _ => rfl
  | cons c cs ih => exact fun x => congrArg (· + 1) (ih x.2)

/-- A printed number is a C string. -/
theorem cStr_decimalInt (z : ℤ) : cStr (decimalInt z) = decimalInt z := by
  refine List.takeWhile_eq_self_iff.mpr fun c hc => ?_
  rcases decimalInt_mem hc with h | rfl
  · rw [bne_iff_ne]
    rintro rfl
    exact absurd h (by decide)
  · decide

theorem decimalInt_natCast (n : ℕ) : decimalInt n = decimal n := by
  rw [decimalInt, if_neg (by omega), Int.natAbs_natCast]

theorem extractULL_toStringULL (n : UInt64) : extractULL (toStringULL n) = some n := by
  have hlt := n.toNat_lt
  obtain ⟨c, s, hcs, hc⟩ := decimalInt_head n.toNat
  have hspace : ¬ isSpace c = true := by rw [isSpace_of_digit c hc]; decide
  have hdrop : (toStringULL n).dropWhile isSpace = decimalInt n.toNat := by
    rw [toStringULL, ← decimalInt_natCast, hcs, List.dropWhile_cons_of_neg hspace]
  have hscan := scanInt_decimalInt n.toNat [] (by simp)
  rw [List.append_nil] at hscan
  rw [extractULL, hdrop, hscan]
  simp only [Int.natAbs_natCast]
  rw [if_pos hlt, UInt64.ofInt, Int.emod_eq_of_lt (by omega) (by omega), Int.toNat_natCast,
    UInt64.ofNat_toNat]

theorem fetchInt_toStringInt (x : Int32) : fetchInt (some (toStringInt x)) = .ok (x, true) := by
  have hread := extractInt_toStringInt x 0 [] nofun
  have hcut : cStr (toStringInt x) = toStringInt x := cStr_decimalInt _
  rw [List.append_nil] at hread
  rw [fetchInt, hcut, hread]
  rfl

theorem fetchULL_toStringULL (n : UInt64) : fetchULL (some (toStringULL n)) = .ok (n, true) := by
  have hcut : cStr (toStringULL n) = toStringULL n := by
    have h := cStr_decimalInt n.toNat
    rwa [decimalInt_natCast] at h
  rw [fetchULL, hcut, extractULL_toStringULL]

theorem fetchStr_some {s : Str} (hs : s.length < 2 ^ 31) : fetchStr (some s) = .ok (s, true) := by
  have hlen : (Int32.ofNat s.length).toInt = s.length := Int32.toInt_ofNat_of_lt hs
  rw [fetchStr, hlen]
  show (if (s.length : ℤ) < 0 then _ else _) = _
  rw [if_neg (by omega), Int.toNat_natCast, List.take_length]

/-- A text that was printed for a value is read as that value. -/
theorem fetch_text (t : ColType) (x : t.Value) (hfits : t.Fits x) :
    fetch t (some (t.text x)) = .ok (x, true) := by
  cases t with
  | int => exact fetchInt_toStringInt x
  | ull => exact fetchULL_toStringULL x
  | str => exact fetchStr_some hfits

/-- A cell that is readable is read as its value, and a `NULL` as nothing. -/
theorem fetch_readable {t : ColType} {x : Nullable t} (hx : t.readable x = true)
    (hfits : ∀ y ∈ x, t.Fits y) : ∃ there, fetch t (x.map t.text) = .ok (x.getD t.zero, there) := by
  cases x with
  | none =>
    cases t with
    | int => cases hx
    | ull => cases hx
    | str => exact ⟨false, rfl⟩
  | some y => exact ⟨true, fetch_text t y (hfits y rfl)⟩

theorem fetch_unreadable {t : ColType} {x : Nullable t} (hx : t.readable x = false) :
    fetch t (x.map t.text) = .error .undefined := by
  cases x with
  | none =>
    cases t with
    | int => rfl
    | ull => rfl
    | str => cases hx
  | some y => cases t <;> cases hx

/-- A row is read from the column on at which its cells begin. -/
theorem fetchRow_cells (cs : List Column) : ∀ (x : RowOf Nullable cs) (pre : List Cell),
    RowFits cs x → fetchRow (pre ++ cells cs x) cs pre.length =
      if numbersThere cs x then .ok (ofNullable cs x) else .error .undefined := by
  induction cs with
  | nil => exact fun _ _ _ => rfl
  | cons c cs ih =>
    intro x pre hfits
    have hcell : cellAt (pre ++ cells (c :: cs) x) pre.length = .ok (x.1.map c.type.text) := by
      rw [cellAt, cells, List.getElem?_append_right (le_refl _), Nat.sub_self]
      rfl
    have hrest : fetchRow (pre ++ cells (c :: cs) x) cs (pre.length + 1) =
        if numbersThere cs x.2 then .ok (ofNullable cs x.2) else .error .undefined := by
      have h := ih x.2 (pre ++ [x.1.map c.type.text]) hfits.2
      rwa [List.append_assoc, List.length_append] at h
    rw [fetchRow, hcell, numbersThere]
    show (fetch c.type (x.1.map c.type.text) >>= _) = _
    cases hx : c.type.readable x.1 with
    | false =>
      rw [fetch_unreadable hx]
      rfl
    | true =>
      obtain ⟨there, hfetch⟩ := fetch_readable hx hfits.1
      rw [hfetch]
      show (fetchRow (pre ++ cells (c :: cs) x) cs (pre.length + 1) >>= _) = _
      rw [hrest]
      cases numbersThere cs x.2 <;> rfl

/-- The rows of a table are read one after the other. -/
theorem fetchRows_cells (cs : List Column) (table : List (RowOf Nullable cs)) :
    (∀ x ∈ table, RowFits cs x) → fetchRows cs (table.map (cells cs)) =
      if table.all (numbersThere cs) then .ok (table.map (ofNullable cs))
      else .error .undefined := by
  induction table with
  | nil => exact fun _ => rfl
  | cons x table ih =>
    intro hfits
    have hrow := fetchRow_cells cs x [] (hfits x List.mem_cons_self)
    have hrest := ih fun y hy => hfits y (List.mem_cons_of_mem x hy)
    rw [List.nil_append] at hrow
    rw [List.map_cons, fetchRows, List.all_cons]
    show (fetchRow (cells cs x) cs ([] : List Cell).length >>= _) = _
    rw [hrow, hrest]
    cases numbersThere cs x with
    | false => rfl
    | true => cases table.all (numbersThere cs) <;> rfl

/-! ### Tables -/

/-- The result of a statement that selects the table. -/
def tableResult (cs : List Column) (table : List (RowOf Nullable cs)) : StoreResult :=
  .rows cs.length (table.map fun x => ⟨cells cs x, cells_length cs x⟩)

/-- The statement is sent, and this comes back. -/
def Answers (b : Backend) (query : Except Str Str) (r : StoreResult) : Prop :=
  ∃ text, query = .ok text ∧ b text = .ok r

theorem send_answers {b : Backend} {query : Except Str Str} {r : StoreResult}
    (h : Answers b query r) : send b query = .ok r := by
  obtain ⟨text, rfl, hb⟩ := h
  show (b text).mapError Failure.cppdbError = _
  rw [hb]
  rfl

/-- **Which tables come back.**  A query that is declared with a table gives the table that the
server has printed, with an empty string for every `NULL` in a column of strings, unless a `NULL`
stands in a column of numbers: then something undefined happens. -/
theorem execSchema_table (cs : List Column) (table : List (RowOf Nullable cs))
    (hfits : ∀ x ∈ table, RowFits cs x) (b : Backend) (query : Except Str Str)
    (h : Answers b query (tableResult cs table)) :
    execSchema cs b query = if table.all (numbersThere cs) then .ok (table.map (ofNullable cs))
      else .error .undefined := by
  have hcells : (table.map fun x => (⟨cells cs x, cells_length cs x⟩ :
      { row : List Cell // row.length = cs.length })).map Subtype.val = table.map (cells cs) := by
    rw [List.map_map]
    rfl
  rw [execSchema, getRawResult, send_answers h, ← fetchRows_cells cs table hfits, ← hcells]
  rfl

/-- **What a query that is declared with a row gives**: the first row of the table, when no `NULL`
stands in a number of that row, whatever the other rows hold; of an empty table it throws. -/
theorem execRow_table (cs : List Column) (table : List (RowOf Nullable cs))
    (hfits : ∀ x ∈ table, RowFits cs x) (b : Backend) (query : Except Str Str)
    (h : Answers b query (tableResult cs table)) :
    execRow cs b query = match table with
      | [] => .error (.cppdbError (ascii "not get value"))
      | x :: _ => if numbersThere cs x then .ok (ofNullable cs x) else .error .undefined := by
  rw [execRow, getRawResult, send_answers h]
  cases table with
  | nil => rfl
  | cons x table =>
    have hrow := fetchRow_cells cs x [] (hfits x List.mem_cons_self)
    rw [List.nil_append] at hrow
    exact hrow

/-- `UserTable::simpleUserRow`. -/
def simpleUserRow : List Column :=
  [⟨ascii "UserId", .ull⟩, ⟨ascii "NickName", .str⟩, ⟨ascii "Email", .str⟩]

/-- A table of two users, one of them without an address. -/
def twoUsers : List (RowOf Nullable simpleUserRow) :=
  [(some (7 : UInt64), some (ascii "ann"), none, ()),
    (some (12 : UInt64), some (ascii "bob"), some (ascii "b@x"), ())]

theorem twoUsers_fit : ∀ x ∈ twoUsers, RowFits simpleUserRow x := by
  refine List.forall_mem_cons.mpr ⟨⟨?_, ?_, nofun, trivial⟩,
    List.forall_mem_cons.mpr ⟨⟨?_, ?_, ?_, trivial⟩, nofun⟩⟩ <;>
    intro y hy <;> cases hy <;>
    exact of_decide_eq_true (p := List.length _ < _) (by decide +kernel)

theorem execSchema_table_users :
    execSchema simpleUserRow (fun _ => .ok (tableResult simpleUserRow twoUsers))
        (Query.new (ascii "select id,nickname,email from users;")).getQuery =
      .ok [((7 : UInt64), ascii "ann", ascii "", ()),
        ((12 : UInt64), ascii "bob", ascii "b@x", ())] :=
  execSchema_table simpleUserRow twoUsers twoUsers_fit _ _ ⟨_, rfl, rfl⟩

/-- The number a statement returns in its one row. -/
theorem execValue_ull {b : Backend} {query : Except Str Str} {id : UInt64}
    (h : Answers b query (.rows 1 [⟨[some (toStringULL id)], rfl⟩])) :
    execValue .ull b query = .ok id := by
  rw [execValue, getRawResult, send_answers h]
  show (fetchULL (some (toStringULL id)) >>= fun x => pure x.1) = _
  rw [fetchULL_toStringULL]
  rfl

theorem execVoid_answers {b : Backend} {query : Except Str Str} {r : StoreResult}
    (h : Answers b query r) : execVoid b query = .ok () := by
  rw [execVoid, send_answers h]
  rfl

end Rojcpp.Sql
