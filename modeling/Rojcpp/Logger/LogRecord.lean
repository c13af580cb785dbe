import Rojcpp.Cpp.Files
import Rojcpp.Logger.LogStream

/-!
# Log records

A `logger` writes the time, the thread, the level and perhaps an error and a function name into its
stream, then takes what is streamed into it, and closes the record with the place in the source and
a newline.  The destructor hands the buffer to `g_output`.

What does not fit is left out whole, the newline like everything else.  The buffer is never full:
its last byte stays free, and the newline is missing exactly when all others are taken.
`output_newline_iff` says for which pieces that happens.
-/

namespace Rojcpp.Logger

open Rojcpp.Lib

/-! ### What is streamed -/

/-- The byte that ends a record. -/
abbrev newline : UInt8 := '\n'

/-- What `snprintf` prints for a `double`, which fits in the 48 bytes it is given. -/
structure FloatText where
  text : Str
  short : text.length < kMaxNumericSize

/-- The arguments of `operator<<`.  A `float` is printed as a `double`, and a pointer to anything is
taken for a C string. -/
inductive Streamed where
  | integral (t : IntegralType) (num : t.Value)
  | double (v : FloatText)
  | char (c : UInt8)
  | chars (str : Option Str)
  | string (str : Str)
  | stringView (str : Str)

/-- `operator<<`. -/
def RecordBuffer.stream (b : RecordBuffer) : Streamed → Option RecordBuffer
  | .integral t num => b.formatInter t num
  | .double v => if kMaxNumericSize ≤ b.avail then b.add v.text else some b
  | .char c => some (b.append [c])
  | .chars (some str) => some (b.append (cStr str))
  | .chars none => some (b.append (ascii "(null)"))
  | .string str => some (b.append str)
  | .stringView str => some (b.append str)

/-- A chain of `operator<<`. -/
def RecordBuffer.streamAll (b : RecordBuffer) (vs : List Streamed) : Option RecordBuffer :=
  vs.foldlM RecordBuffer.stream b

/-! ### The record -/

/-- `logger::LogLevel`. -/
inductive LogLevel where
  | trace
  | debug
  | info
  | warn
  | error
  | fatal
  deriving DecidableEq, Repr

/-- `getLevelName`. -/
def getLevelName : LogLevel → Str
  | .info => ascii "INFO  "
  | .debug => ascii "DEBUG "
  | .trace => ascii "TRACE "
  | .warn => ascii "WARN  "
  | .error => ascii "ERROR "
  | .fatal => ascii "FATAL "

/-- What goes into a record: the time, the thread's number and the text of the error as the
environment gives them, the arguments of the constructors, and what is streamed. -/
structure LogRecord where
  timestr : Str
  threadId : Str
  level : LogLevel
  savedErrno : IntegralType.int.Value
  errnoMsg : Str
  filename : Option Str
  line : IntegralType.int.Value
  funcName : Option (Option Str)
  message : List Streamed

namespace LogRecord

/-- The constructors. -/
def begin (r : LogRecord) : List Streamed :=
  [.string r.timestr, .char ' ', .chars (some r.threadId), .char ' ',
    .stringView (getLevelName r.level)] ++
  (if r.savedErrno.val ≠ 0 then
    [.chars (some r.errnoMsg), .chars (some (ascii " (errno=")), .integral _ r.savedErrno,
      .chars (some (ascii ") "))]
  else []) ++
  match r.funcName with
  | none => []
  | some funcName => [.chars funcName, .char ' ']

/-- `finish`, without the newline. -/
def place (r : LogRecord) : List Streamed :=
  [.chars (some (ascii " - ")), .chars r.filename, .char ':', .integral _ r.line]

/-- All that goes into a record in front of the newline. -/
def pieces (r : LogRecord) : List Streamed := r.begin ++ r.message ++ r.place

/-- What the destructor passes to `g_output`. -/
def output (r : LogRecord) : Option Str :=
  (RecordBuffer.empty.streamAll (r.pieces ++ [.char newline])).map RecordBuffer.data

end LogRecord

/-! ### Sizes -/

/-- The bytes of a piece. -/
def Streamed.text : Streamed → Str
  | .integral _ num => decimalInt num.val
  | .double v => v.text
  | .char c => [c]
  | .chars str => (str.map cStr).getD (ascii "(null)")
  | .string str => str
  | .stringView str => str

/-- The bytes that must be free for a piece. -/
def Streamed.needed : Streamed → ℕ
  | .integral _ _ => kMaxNumericSize
  | .double _ => kMaxNumericSize
  | v => v.text.length + 1

/-- Whether a piece fits behind `n` bytes. -/
def Streamed.Fits (v : Streamed) (n : ℕ) : Prop := v.needed ≤ kSmallBuffer - n

instance decidableFits (v : Streamed) (n : ℕ) : Decidable (v.Fits n) :=
  inferInstanceAs (Decidable (_ ≤ _))

/-- The bytes that are taken behind pieces that are streamed one after the other. -/
def fill (vs : List Streamed) : ℕ :=
  vs.foldl (fun n v => if v.Fits n then n + v.text.length else n) 0

/-- A piece that fits behind `n` bytes leaves one byte free and does not end in a newline. -/
def Streamed.Closes (v : Streamed) (n : ℕ) : Prop :=
  v.Fits n ∧ n + v.text.length = kSmallBuffer - 1 ∧ v.text ≠ [] ∧ v.text.getLast? ≠ some newline

/-- One of the pieces leaves no place for anything behind it. -/
def FillsUp (vs : List Streamed) : Prop :=
  ∃ before v after, vs = before ++ v :: after ∧ v.Closes (fill before)

/-! ### One piece -/

theorem Streamed.length_lt_needed (v : Streamed) : v.text.length < v.needed := by
  cases v with
  | integral t num =>
    exact num.length_decimalInt_le.trans_lt (show 40 < kMaxNumericSize by decide)
  | double v => exact v.short
  | char c => exact Nat.lt_succ_self _
  | chars str => exact Nat.lt_succ_self _
  | string str => exact Nat.lt_succ_self _
  | stringView str => exact Nat.lt_succ_self _

namespace RecordBuffer

theorem append_of_avail {b : RecordBuffer} {src : Str} (h : src.length < b.avail) :
    (b.append src).data = b.data ++ src := by
  rw [append, dif_pos h]

theorem append_of_not_avail {b : RecordBuffer} {src : Str} (h : ¬src.length < b.avail) :
    b.append src = b := dif_neg h

/-- **`operator<<` keeps a piece that fits and leaves out one that does not.** -/
theorem stream_cases (b : RecordBuffer) (v : Streamed) :
    ∃ b', b.stream v = some b' ∧
      b'.data = if v.Fits b.data.length then b.data ++ v.text else b.data := by
  have happend : ∀ src : Str, (b.append src).data =
      if src.length + 1 ≤ b.avail then b.data ++ src else b.data := by
    intro src
    by_cases h : src.length < b.avail
    · rw [if_pos (Nat.succ_le_of_lt h), append_of_avail h]
    · rw [if_neg fun hle => h (Nat.lt_of_succ_le hle), append_of_not_avail h]
  cases v with
  | integral t num =>
    by_cases h : kMaxNumericSize ≤ b.avail
    · obtain ⟨b', hrun, hdata⟩ := formatInter_of_avail h num
      exact ⟨b', hrun, hdata.trans (if_pos h).symm⟩
    · exact ⟨b, if_neg h, (if_neg h).symm⟩
  | double v =>
    by_cases h : kMaxNumericSize ≤ b.avail
    · have hroom : b.data.length + v.text.length < kSmallBuffer := by
        have hshort := v.short
        rw [avail] at h
        omega
      obtain ⟨b', hadd, hdata⟩ := add_of_room v.text hroom
      exact ⟨b', (if_pos h).trans hadd, hdata.trans (if_pos h).symm⟩
    · exact ⟨b, if_neg h, (if_neg h).symm⟩
  | char c => exact ⟨_, rfl, happend [c]⟩
  | chars str =>
    cases str with
    | none => exact ⟨_, rfl, happend _⟩
    | some str => exact ⟨_, rfl, happend _⟩
  | string str => exact ⟨_, rfl, happend str⟩
  | stringView str => exact ⟨_, rfl, happend str⟩

end RecordBuffer

/-! ### All pieces -/

theorem fill_concat (vs : List Streamed) (v : Streamed) :
    fill (vs ++ [v]) = if v.Fits (fill vs) then fill vs + v.text.length else fill vs := by
  rw [fill, List.foldl_append]
  rfl

theorem fillsUp_concat (vs : List Streamed) (v : Streamed) :
    FillsUp (vs ++ [v]) ↔ FillsUp vs ∨ v.Closes (fill vs) := by
  constructor
  · intro hfull
    obtain ⟨before, w, after, heq, hw⟩ := hfull
    rcases List.eq_nil_or_concat after with rfl | ⟨after, x, rfl⟩
    · obtain ⟨rfl, hsame⟩ := List.append_inj' heq rfl
      obtain rfl : v = w := List.singleton_inj.mp hsame
      exact .inr hw
    · rw [List.concat_eq_append, ← List.cons_append, ← List.append_assoc] at heq
      exact .inl ⟨before, w, after, (List.append_inj' heq rfl).1, hw⟩
  · intro hor
    rcases hor with ⟨before, w, after, rfl, hw⟩ | hv
    · exact ⟨before, w, after ++ [v], by rw [List.append_assoc, List.cons_append], hw⟩
    · exact ⟨vs, v, [], rfl, hv⟩

/-- What the buffer holds behind the pieces `vs`. -/
structure Filled (b : RecordBuffer) (vs : List Streamed) : Prop where
  length : b.data.length = fill vs
  full : FillsUp vs → fill vs = kSmallBuffer - 1
  last : fill vs = kSmallBuffer - 1 → (b.data.getLast? = some newline ↔ ¬FillsUp vs)

theorem filled_empty : Filled RecordBuffer.empty [] where
  length := rfl
  full h := by
    obtain ⟨before, v, after, heq, -⟩ := h
    exact absurd heq.symm (List.append_ne_nil_of_right_ne_nil before (List.cons_ne_nil v after))
  last h := absurd h (by decide)

/-- A piece that is kept comes last, and what stood there before it left place for it. -/
theorem Filled.keep {b b' : RecordBuffer} {vs : List Streamed} {v : Streamed} (h : Filled b vs)
    (hfits : v.Fits (fill vs)) (htext : v.text ≠ []) (hdata : b'.data = b.data ++ v.text) :
    Filled b' (vs ++ [v]) := by
  have hfill := fill_concat vs v
  rw [if_pos hfits] at hfill
  have hopen : ¬FillsUp vs := by
    intro hfull
    have hall := h.full hfull
    have hroom : v.needed ≤ kSmallBuffer - fill vs := hfits
    have hneeded := v.length_lt_needed
    have hpos := List.length_pos_of_ne_nil htext
    have hbuffer : kSmallBuffer = 4096 := rfl
    omega
  refine ⟨?_, ?_, ?_⟩
  · rw [hdata, List.length_append, h.length, hfill]
  · intro hfull
    rw [hfill]
    exact (((fillsUp_concat vs v).mp hfull).resolve_left hopen).2.1
  · intro hall
    rw [hfill] at hall
    rw [hdata, List.getLast?_append_of_ne_nil _ htext, fillsUp_concat]
    constructor
    · intro hlast hor
      rcases hor with hfull | hcloses
      · exact hopen hfull
      · exact hcloses.2.2.2 hlast
    · intro hnot
      by_contra hlast
      exact hnot (.inr ⟨hfits, hall, htext, hlast⟩)

/-- A piece that is left out, or has no bytes, changes nothing. -/
theorem Filled.leave {b b' : RecordBuffer} {vs : List Streamed} {v : Streamed} (h : Filled b vs)
    (hleft : ¬(v.Fits (fill vs) ∧ v.text ≠ [])) (hdata : b'.data = b.data) :
    Filled b' (vs ++ [v]) := by
  have hfill : fill (vs ++ [v]) = fill vs := by
    rw [fill_concat]
    split
    · rename_i hfits
      have htext : v.text = [] := by_contra fun hne => hleft ⟨hfits, hne⟩
      rw [htext, List.length_nil, Nat.add_zero]
    · rfl
  have hiff : FillsUp (vs ++ [v]) ↔ FillsUp vs := by
    rw [fillsUp_concat, or_iff_left fun hcloses => hleft ⟨hcloses.1, hcloses.2.2.1⟩]
  refine ⟨?_, ?_, ?_⟩
  · rw [hdata, hfill, h.length]
  · rw [hiff, hfill]
    exact h.full
  · rw [hiff, hdata, hfill]
    exact h.last

/-- The step: one more piece. -/
theorem Filled.stream {b : RecordBuffer} {vs : List Streamed} (h : Filled b vs) (v : Streamed) :
    ∃ b', b.stream v = some b' ∧ Filled b' (vs ++ [v]) := by
  obtain ⟨b', hrun, hdata⟩ := b.stream_cases v
  refine ⟨b', hrun, ?_⟩
  rw [h.length] at hdata
  by_cases hfits : v.Fits (fill vs)
  · rw [if_pos hfits] at hdata
    by_cases htext : v.text = []
    · rw [htext, List.append_nil] at hdata
      exact h.leave (fun hkept => hkept.2 htext) hdata
    · exact h.keep hfits htext hdata
  · rw [if_neg hfits] at hdata
    exact h.leave (fun hkept => hfits hkept.1) hdata

/-- The run: all pieces. -/
theorem filled_streamAll (vs : List Streamed) :
    ∃ b, RecordBuffer.empty.streamAll vs = some b ∧ Filled b vs := by
  induction vs using List.reverseRecOn with
  | nil => exact ⟨_, rfl, filled_empty⟩
  | append_singleton vs v ih =>
    obtain ⟨b, hrun, hb⟩ := ih
    obtain ⟨b', hstep, hb'⟩ := hb.stream v
    refine ⟨b', ?_, hb'⟩
    rw [RecordBuffer.streamAll] at hrun ⊢
    rw [List.foldlM_append, hrun, Option.bind_eq_bind, Option.bind_some, List.foldlM_cons, hstep]
    rfl

/-! ### The newline -/

/-- The newline is kept when the pieces leave place for it. -/
theorem Filled.newline {b : RecordBuffer} {vs : List Streamed} (h : Filled b vs) :
    ∃ b', b.stream (.char newline) = some b' ∧
      (b'.data.getLast? = some newline ↔ ¬FillsUp vs) := by
  obtain ⟨b', hrun, hdata⟩ := b.stream_cases (.char Logger.newline)
  refine ⟨b', hrun, ?_⟩
  have hinside := b.inside
  rw [h.length] at hdata hinside
  by_cases hall : fill vs = kSmallBuffer - 1
  · have hfits : ¬(Streamed.char Logger.newline).Fits (fill vs) := by
      rw [hall]
      decide
    rw [hdata, if_neg hfits]
    exact h.last hall
  · have hfits : (Streamed.char Logger.newline).Fits (fill vs) := by
      show 2 ≤ kSmallBuffer - fill vs
      omega
    rw [hdata, if_pos hfits]
    exact ⟨fun _ hfull => hall (h.full hfull), fun _ => List.getLast?_concat⟩

/-- The output of a record, and when its last byte is a newline. -/
theorem LogRecord.output_spec (r : LogRecord) :
    ∃ out, r.output = some out ∧ (out.getLast? = some newline ↔ ¬FillsUp r.pieces) := by
  obtain ⟨b, hrun, hb⟩ := filled_streamAll r.pieces
  obtain ⟨b', hstep, hlast⟩ := hb.newline
  refine ⟨b'.data, ?_, hlast⟩
  rw [RecordBuffer.streamAll] at hrun
  rw [output, RecordBuffer.streamAll, List.foldlM_append, hrun, Option.bind_eq_bind,
    Option.bind_some, List.foldlM_cons, hstep]
  rfl

/-- **A record ends in a newline, unless its pieces fill it up**: whatever is streamed, the bytes
passed to `g_output` end in a newline exactly when no piece takes the last byte but one of the
buffer, unless that piece ends in a newline itself. -/
theorem output_newline_iff (r : LogRecord) :
    (∃ out, r.output = some out ∧ out.getLast? = some newline) ↔ ¬FillsUp r.pieces := by
  obtain ⟨out, hout, hlast⟩ := r.output_spec
  rw [← hlast]
  constructor
  · intro hends
    obtain ⟨out', hout', hnewline⟩ := hends
    obtain rfl : out = out' := Option.some.inj (hout.symm.trans hout')
    exact hnewline
  · exact fun hnewline => ⟨out, hout, hnewline⟩

/-- A record whose text takes all but one of the bytes its head leaves. -/
def fullRecord : LogRecord where
  timestr := ascii "2023/05/01 12:00:00.000000"
  threadId := ascii "140213"
  level := .info
  savedErrno := ⟨0, by decide⟩
  errnoMsg := []
  filename := some (ascii "main.cpp")
  line := ⟨42, by decide⟩
  funcName := none
  message := [.string (List.replicate 4055 120)]

/-- A long enough string leaves one byte free. -/
theorem Streamed.string_closes {str : Str} {n : ℕ} (hlength : n + str.length = kSmallBuffer - 1)
    (hne : str ≠ []) (hlast : str.getLast? ≠ some newline) : (Streamed.string str).Closes n := by
  have hfits : str.length + 1 ≤ kSmallBuffer - n := by
    rw [kSmallBuffer] at hlength ⊢
    omega
  exact ⟨hfits, hlength, hne, hlast⟩

theorem fullRecord_fillsUp : FillsUp fullRecord.pieces := by
  have hbegin : fill fullRecord.begin = 40 := by decide
  have hlength : (List.replicate 4055 (120 : UInt8)).length = 4055 := List.length_replicate
  refine ⟨fullRecord.begin, .string (List.replicate 4055 120), fullRecord.place, rfl, ?_⟩
  rw [hbegin]
  refine Streamed.string_closes (by rw [hlength, kSmallBuffer]) ?_ ?_
  · exact List.ne_nil_of_length_pos (by rw [hlength]; norm_num)
  · rw [List.getLast?_replicate, if_neg (by norm_num)]
    decide

theorem fullRecord_no_newline :
    ¬∃ out, fullRecord.output = some out ∧ out.getLast? = some newline := by
  intro hends
  obtain ⟨out, hout, hnewline⟩ := hends
  obtain ⟨out', hout', hlast⟩ := fullRecord.output_spec
  obtain rfl : out = out' := Option.some.inj (hout.symm.trans hout')
  exact hlast.mp hnewline fullRecord_fillsUp

end Rojcpp.Logger
