import Mathlib.Data.List.Sort
import Rojcpp.Cpp.Files

/-!
# Test data of a problem

`Problem` looks for the input and output files in the `data` directory of a problem.  A file
counts when its whole name matches `[A-Za-z_]+(\d+)\.in`, or `[A-Za-z_]+(\d+)\.(out|ans)` for an
output; the two lists are sorted by number and path and must have the same size.

`matchName` runs the two expressions without backtracking: letters, digits and the dot are
disjoint, so the greedy runs are the only match.
-/

namespace Rojcpp.Judge

open Rojcpp.Lib

/-- `[A-Za-z_]`. -/
def isNameLetter (c : UInt8) : Bool := (65 ≤ c && c ≤ 90) || (97 ≤ c && c ≤ 122) || c == '_'

/-- A match of `[A-Za-z_]+(\d+)\.ext` for one of the extensions: the digits. -/
def matchName (exts : List Str) (name : Str) : Option Str :=
  let tail := name.dropWhile isNameLetter
  let digits := tail.takeWhile isDigit
  if (name.takeWhile isNameLetter).isEmpty || digits.isEmpty then none
  else if exts.any fun e => tail.dropWhile isDigit == ascii "." ++ e then some digits
  else none

/-- The extensions of `input_regex`. -/
def inputExts : List Str := [ascii "in"]

/-- The extensions of `output_regex`. -/
def outputExts : List Str := [ascii "out", ascii "ans"]

/-- `stoi` on a digit run, which throws on a number that is no `int`. -/
def stoi (digits : Str) : Except Str ℕ :=
  if digitsValue 0 digits < 2 ^ 31 then .ok (digitsValue 0 digits) else .error (ascii "stoi")

/-- One entry of `input_data` or `output_data`: the number in the file name, and the path. -/
abbrev TestFile := ℕ × Path

/-- The loop over the entries of the data directory. -/
def scanData (dataPath : Path) : List FileName → Except Str (List TestFile × List TestFile)
  | [] => .ok ([], [])
  | e :: es =>
    match matchName inputExts e.text, matchName outputExts e.text with
    | some digits, _ => do
      let id ← stoi digits
      let r ← scanData dataPath es
      return ((id, dataPath.append e.text) :: r.1, r.2)
    | none, some digits => do
      let id ← stoi digits
      let r ← scanData dataPath es
      return (r.1, (id, dataPath.append e.text) :: r.2)
    | none, none => scanData dataPath es

/-- `operator<` of the pairs, as the order `sort` leaves them in. -/
def TestFile.le (a b : TestFile) : Prop := a.1 < b.1 ∨ (a.1 = b.1 ∧ a.2 ≤ b.2)

instance : DecidableRel TestFile.le := fun a b =>
  inferInstanceAs (Decidable (a.1 < b.1 ∨ (a.1 = b.1 ∧ a.2 ≤ b.2)))

/-- `struct Problem`: as many outputs as inputs. -/
structure Problem where
  inputData : List TestFile
  outputData : List TestFile
  sameSize : inputData.length = outputData.length

/-- The `data` directory of a problem. -/
def dataDir (path : Path) : Path := path.append (ascii "data")

/-- The end of the constructor: the size test and the sorting. -/
def Problem.ofData (path : Path) (d : List TestFile × List TestFile) : Except Str Problem :=
  if h : d.1.length = d.2.length then
    .ok
      { inputData := d.1.insertionSort TestFile.le
        outputData := d.2.insertionSort TestFile.le
        sameSize := by rw [List.length_insertionSort, List.length_insertionSort, h] }
  else .error (path ++ utf8 " 输入输出数据个数不匹配")

/-- The test `if(not fs::exists(p)) throw`. -/
def requireExists (fs : FileSystem) (p : Path) : Except Str Unit := do
  let found ← fs.exist p
  if found then .ok () else .error (p ++ utf8 " 不存在!")

/-- The constructor of `Problem`. -/
def Problem.load (fs : FileSystem) (path : Path) : Except Str Problem := do
  requireExists fs path
  requireExists fs (dataDir path)
  let entries ← fs.entries (dataDir path)
  let data ← scanData (dataDir path) entries
  Problem.ofData path data

/-! ### Where the test files are -/

/-- A path that a directory iterator over `dataPath` produces. -/
def EntryOf (dataPath : Path) (p : Path) : Prop := ∃ e : FileName, p = dataPath.append e.text

theorem scanData_entries (dataPath : Path) (es : List FileName) :
    ∀ r, scanData dataPath es = .ok r → ∀ d ∈ r.1 ++ r.2, EntryOf dataPath d.2 := by
  induction es with
  | nil =>
    intro r hr d hd
    cases hr
    simp at hd
  | cons e es ih =>
    intro r hr d hd
    rw [scanData] at hr
    split at hr
    · obtain ⟨id, -, hr⟩ := bind_ok_iff.mp hr
      obtain ⟨r', hr', hr⟩ := bind_ok_iff.mp hr
      cases hr
      rcases List.mem_cons.mp hd with rfl | hd
      · exact ⟨e, rfl⟩
      · exact ih r' hr' d hd
    · obtain ⟨id, -, hr⟩ := bind_ok_iff.mp hr
      obtain ⟨r', hr', hr⟩ := bind_ok_iff.mp hr
      cases hr
      rcases List.mem_append.mp hd with hd | hd
      · exact ih r' hr' d (List.mem_append_left _ hd)
      · rcases List.mem_cons.mp hd with rfl | hd
        · exact ⟨e, rfl⟩
        · exact ih r' hr' d (List.mem_append_right _ hd)
    · exact ih r hr d hd

/-- Sorting keeps the files. -/
theorem ofData_mem (path : Path) (d : List TestFile × List TestFile) (p : Problem)
    (h : Problem.ofData path d = .ok p) (f : TestFile)
    (hf : f ∈ p.inputData ++ p.outputData) : f ∈ d.1 ++ d.2 := by
  rw [Problem.ofData] at h
  split at h
  · cases h
    rw [List.mem_append] at hf ⊢
    exact hf.imp (List.perm_insertionSort _ _).mem_iff.mp (List.perm_insertionSort _ _).mem_iff.mp
  · cases h

/-- Every test file of a problem is an entry of its data directory. -/
theorem load_entries (fs : FileSystem) (path : Path) (p : Problem)
    (h : Problem.load fs path = .ok p) (f : TestFile) (hf : f ∈ p.inputData ++ p.outputData) :
    EntryOf (dataDir path) f.2 := by
  obtain ⟨_, -, h⟩ := bind_ok_iff.mp h
  obtain ⟨_, -, h⟩ := bind_ok_iff.mp h
  obtain ⟨es, -, h⟩ := bind_ok_iff.mp h
  obtain ⟨d, hd, h⟩ := bind_ok_iff.mp h
  exact scanData_entries (dataDir path) es d hd f (ofData_mem path d p h f hf)

/-- The data directory's path does not end in a separator. -/
theorem dataDir_last (path : Path) : (dataDir path).getLast? = some 'a'.toUInt8 := by
  rw [dataDir, Path.append, if_neg (by decide)]
  split
  · rw [List.getLast?_append_of_ne_nil _ (by decide)]
    rfl
  · rw [List.getLast?_append_of_ne_nil _ (by simp)]
    rfl

/-- An entry of a data directory: the directory, a separator and a name without one. -/
theorem entryOf_dataDir (path p : Path) (h : EntryOf (dataDir path) p) :
    ∃ name : Str, p = dataDir path ++ slash :: name ∧ slash ∉ name := by
  obtain ⟨e, rfl⟩ := h
  have hlast := dataDir_last path
  refine ⟨e.text, append_eq _ _ ?_ ?_ e.noSlash, e.noSlash⟩
  · intro h
    rw [h] at hlast
    cases hlast
  · rw [hlast]
    decide

end Rojcpp.Judge
