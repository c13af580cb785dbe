import Rojcpp.Cpp.Text

/-!
# Comparing a program's output with the answer

`Reader` reads a file character by character.  A character is a signed `char`, so a byte 255 of
the file and the end of the file look alike to it; `cur` is the last character read.  A file that
could not be opened is one that ends at once.

`noipstyle_check` compares line by line, ignoring trailing blanks of each line and empty lines.
Its loop runs while the answer has not ended; `noipLoop_fuel` shows that the bound used here to
run it is never reached.
-/

namespace Rojcpp.Judge

open Rojcpp.Lib

/-- `EOF` as a `char`. -/
abbrev eofChar : UInt8 := 255

/-- `struct Reader`: the bytes not read yet and the last character read. -/
structure Reader where
  rest : Str
  cur : UInt8
  deriving DecidableEq, Repr

/-- A reader on a file; `none` is a file that cannot be opened.  `cur` starts as `-2`. -/
def Reader.open (file : Option Str) : Reader := ⟨file.getD [], 254⟩

/-- `eof()`. -/
def Reader.eof (r : Reader) : Bool := r.cur == eofChar

/-- `isEofn`. -/
def isEofn (c : UInt8) : Bool := c == '\r' || c == '\n'

/-- `readEoln`: eats the end-of-line characters in front. -/
def Reader.readEoln (r : Reader) : Reader :=
  ⟨r.rest.dropWhile isEofn, (r.rest.takeWhile isEofn).getLast?.getD r.cur⟩

/-- The loop of `readLine`: the line, the character that ended it and what follows. -/
def readLineLoop : Str → Str × UInt8 × Str
  | [] => ([], eofChar, [])
  | c :: s =>
    if isEofn c || c == eofChar then ([], c, s)
    else
      let r := readLineLoop s
      (c :: r.1, r.2)

/-- `readLine`. -/
def Reader.readLine (r : Reader) : Str × Reader :=
  let l := readLineLoop r.rest
  (l.1, Reader.readEoln ⟨l.2.2, l.2.1⟩)

/-- `del_line_back_space`. -/
def delLineBackSpace (s : Str) : Str :=
  (s.reverse.dropWhile fun (c : UInt8) => c == '\n' || c == ' ' || c == '\r').reverse

/-- The loop of `noipstyle_check`, for at most `fuel` rounds. -/
def noipLoop : ℕ → Reader → Reader → Bool
  | 0, _, _ => true
  | fuel + 1, ans, ouf =>
    if ans.eof then true
    else
      let j := ans.readLine
      if (delLineBackSpace j.1).isEmpty && j.2.eof then true
      else
        let p := ouf.readLine
        if delLineBackSpace j.1 ≠ delLineBackSpace p.1 then false else noipLoop fuel j.2 p.2

/-- `Check::noipstyle_check` on the contents of the two files. -/
def noipstyleCheck (userOutput stdOutput : Option Str) : Bool :=
  let ans := Reader.open stdOutput
  noipLoop (ans.rest.length + 2) ans (Reader.open userOutput)

theorem readLineLoop_length (s : Str) (hs : s ≠ []) : (readLineLoop s).2.2.length < s.length := by
  induction s with
  | nil => exact absurd rfl hs
  | cons c s ih =>
    rw [readLineLoop]
    split
    · exact Nat.lt_succ_self _
    · cases s with
      | nil => simp [readLineLoop]
      | cons d s => exact Nat.lt_succ_of_lt (ih (by simp))

/-- A line read from a file that has not ended makes the rest shorter. -/
theorem readLine_length (r : Reader) (hr : r.rest ≠ []) :
    r.readLine.2.rest.length < r.rest.length :=
  lt_of_le_of_lt (List.dropWhile_sublist _).length_le (readLineLoop_length r.rest hr)

/-- At the end of the file a read ends the reader. -/
theorem readLine_eof (r : Reader) (hr : r.rest = []) : r.readLine.2.eof = true := by
  rw [Reader.readLine, hr]
  rfl

theorem noipLoop_eof (fuel : ℕ) (ans ouf : Reader) (h : ans.eof = true) :
    noipLoop fuel ans ouf = true := by
  cases fuel with
  | zero => rfl
  | succ fuel => rw [noipLoop, if_pos h]

/-- More rounds than the answer has characters left change nothing. -/
theorem noipLoop_fuel (n : ℕ) : ∀ (ans ouf : Reader) (k : ℕ), ans.rest.length < n →
    noipLoop (n + 1 + k) ans ouf = noipLoop (n + 1) ans ouf := by
  induction n with
  | zero => intro ans ouf k h; omega
  | succ n ih =>
    intro ans ouf k h
    rw [show n + 1 + 1 + k = (n + 1 + k) + 1 by omega, noipLoop, noipLoop]
    by_cases hr : ans.rest = []
    · simp only [noipLoop_eof _ _ _ (readLine_eof ans hr)]
    · have hlt := readLine_length ans hr
      simp only [ih ans.readLine.2 ouf.readLine.2 k (by omega)]

/-- An answer file that cannot be opened, or is empty, agrees with everything. -/
theorem noipstyleCheck_empty (userOutput stdOutput : Option Str) (h : stdOutput.getD [] = []) :
    noipstyleCheck userOutput stdOutput = true := by
  simp only [noipstyleCheck, Reader.open, h]
  rfl

end Rojcpp.Judge
