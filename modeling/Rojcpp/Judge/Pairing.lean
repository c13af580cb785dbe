import Rojcpp.Judge.WorkPool
import Rojcpp.Lib.SortedKeys

/-!
# Which output a test is judged against

The constructor of `Problem` keeps the number in each file name and sorts the inputs and the
outputs by it, each for themselves; it refuses a directory in which there are not as many of the
ones as of the others.  `work_stage1` takes the two lists position by position.

So a test is judged against the output of its own number exactly when the numbers of the inputs are
those of the outputs, each as often.
-/

namespace Rojcpp.Judge

open Rojcpp.Lib

/-- The numbers in the names that match one of the extensions. -/
def testNumbers (exts : List Str) (es : List FileName) : List ℕ :=
  es.filterMap fun e => (matchName exts e.text).map (digitsValue 0)

/-- As many outputs as inputs, and the same number at every position. -/
def Problem.Paired (p : Problem) : Prop :=
  p.inputData.length = p.outputData.length ∧
    ∀ (i : ℕ) (a b : TestFile), p.inputData[i]? = some a → p.outputData[i]? = some b → a.1 = b.1

/-! ### The numbers the constructor keeps -/

theorem stoi_eq_ok {digits : Str} {n : ℕ} (h : stoi digits = .ok n) : n = digitsValue 0 digits := by
  rw [stoi] at h
  split at h
  · exact (Except.ok.inj h).symm
  · cases h

/-- No name is one of an input and of an output. -/
theorem matchName_output_none {name digits : Str} (h : matchName inputExts name = some digits) :
    matchName outputExts name = none := by
  simp only [matchName] at h ⊢
  split at h
  · cases h
  · next hrun =>
    rw [if_neg hrun]
    split at h
    · next hin =>
      apply if_neg
      simp only [inputExts, List.any_cons, List.any_nil, Bool.or_false, beq_iff_eq] at hin
      rw [hin]
      decide
    · cases h

/-- The loop over the directory keeps the numbers of the inputs and those of the outputs. -/
theorem scanData_numbers (dataPath : Path) (es : List FileName) : ∀ r,
    scanData dataPath es = .ok r → r.1.map Prod.fst = testNumbers inputExts es ∧
      r.2.map Prod.fst = testNumbers outputExts es := by
  induction es with
  | nil =>
    intro r hr
    cases hr
    exact ⟨rfl, rfl⟩
  | cons e es ih =>
    intro r hr
    rw [scanData] at hr
    simp only [testNumbers, List.filterMap_cons] at ih ⊢
    cases hin : matchName inputExts e.text with
    | some digits =>
      rw [hin] at hr
      obtain ⟨id, hid, hr⟩ := bind_ok_iff.mp hr
      obtain ⟨r', hr', hr⟩ := bind_ok_iff.mp hr
      cases hr
      obtain ⟨h1, h2⟩ := ih r' hr'
      rw [matchName_output_none hin, stoi_eq_ok hid]
      exact ⟨congrArg _ h1, h2⟩
    | none =>
      cases hout : matchName outputExts e.text with
      | some digits =>
        rw [hin, hout] at hr
        obtain ⟨id, hid, hr⟩ := bind_ok_iff.mp hr
        obtain ⟨r', hr', hr⟩ := bind_ok_iff.mp hr
        cases hr
        obtain ⟨h1, h2⟩ := ih r' hr'
        rw [stoi_eq_ok hid]
        exact ⟨h1, congrArg _ h2⟩
      | none =>
        rw [hin, hout] at hr
        exact ih r hr

/-- `sort` compares the numbers first. -/
theorem testFile_keyFirst : KeyFirst (Prod.fst : TestFile → ℕ) TestFile.le where
  le_of_rel a b h := by
    rcases h with h | h
    · exact Nat.le_of_lt h
    · exact Nat.le_of_eq h.1
  le_of_not_rel a b h := by
    have hlt : ¬ a.1 < b.1 := fun hlt => h (.inl hlt)
    omega

/-- The constructor sorts what it has kept. -/
theorem ofData_sorted {path : Path} {d : List TestFile × List TestFile} {p : Problem}
    (h : Problem.ofData path d = .ok p) :
    p.inputData = d.1.insertionSort TestFile.le ∧ p.outputData = d.2.insertionSort TestFile.le := by
  rw [Problem.ofData] at h
  split at h
  · cases h
    exact ⟨rfl, rfl⟩
  · cases h

/-! ### The pairs -/

/-- The pairs as lists of numbers. -/
theorem paired_iff_map (p : Problem) :
    p.Paired ↔ p.inputData.map Prod.fst = p.outputData.map Prod.fst := by
  constructor
  · intro ⟨hlen, hall⟩
    apply List.ext_getElem?
    intro i
    rw [List.getElem?_map, List.getElem?_map]
    cases ha : p.inputData[i]? with
    | none =>
      rw [List.getElem?_eq_none_iff, hlen, ← List.getElem?_eq_none_iff] at ha
      rw [ha]
    | some a =>
      have hi : i < p.outputData.length := by
        rw [← hlen]
        exact (List.getElem?_eq_some_iff.mp ha).1
      rw [List.getElem?_eq_getElem hi]
      exact congrArg some (hall i a _ ha (List.getElem?_eq_getElem hi))
  · intro hmap
    refine ⟨p.sameSize, fun i a b ha hb => ?_⟩
    have hi := congrArg (fun l => l[i]?) hmap
    simp only [List.getElem?_map, ha, hb] at hi
    exact Option.some.inj hi

/-- **Every test is judged against the output of its number exactly when the numbers agree.**  If
the constructor succeeds on a directory, its two lists have the same numbers position by position
if and only if the numbers in the names of the inputs are, each as often, those in the names of the
outputs. -/
theorem paired_iff {fs : FileSystem} {path : Path} {es : List FileName} {p : Problem}
    (hes : fs.entries (dataDir path) = .ok es) (hload : Problem.load fs path = .ok p) :
    p.Paired ↔ (testNumbers inputExts es).Perm (testNumbers outputExts es) := by
  obtain ⟨_, -, hload⟩ := bind_ok_iff.mp hload
  obtain ⟨_, -, hload⟩ := bind_ok_iff.mp hload
  obtain ⟨es', hes', hread⟩ := bind_ok_iff.mp hload
  rw [hes] at hes'
  cases hes'
  obtain ⟨d, hscan, hdata⟩ := bind_ok_iff.mp hread
  obtain ⟨hin, hout⟩ := scanData_numbers _ _ d hscan
  obtain ⟨hinput, houtput⟩ := ofData_sorted hdata
  rw [paired_iff_map, ← hin, ← hout, hinput, houtput]
  exact testFile_keyFirst.map_insertionSort_eq_iff d.1 d.2

/-- A problem directory with these test files. -/
def dirOf (es : List FileName) : FileSystem where
  exist _ := .ok true
  entries _ := .ok es
  read _ := some []
  writable _ := true

/-- A directory listed in another order than that of the numbers. -/
def unorderedFiles : List FileName :=
  [⟨ascii "a10.in", by decide⟩, ⟨ascii "b2.ans", by decide⟩, ⟨ascii "a2.in", by decide⟩,
    ⟨ascii "a10.out", by decide⟩]

/-- Its problem. -/
theorem paired_iff_unordered : ∃ p, Problem.load (dirOf unorderedFiles) (ascii "p") = .ok p ∧
    p.Paired ∧
      (testNumbers inputExts unorderedFiles).Perm (testNumbers outputExts unorderedFiles) := by
  have hload : ∃ p, Problem.load (dirOf unorderedFiles) (ascii "p") = .ok p := ⟨_, rfl⟩
  have hperm : (testNumbers inputExts unorderedFiles).Perm
      (testNumbers outputExts unorderedFiles) := by decide +kernel
  obtain ⟨p, hp⟩ := hload
  exact ⟨p, hp, (paired_iff rfl hp).mpr hperm, hperm⟩

/-- **An input and an output of different tests are a pair.** -/
theorem paired_other_number : ∃ p,
    Problem.load (dirOf [⟨ascii "a1.in", by decide⟩, ⟨ascii "a2.out", by decide⟩])
      (ascii "p") = .ok p ∧
    p.tests = [(ascii "p/data/a1.in", ascii "p/data/a2.out")] ∧ ¬ p.Paired := by
  refine ⟨_, rfl, by decide +kernel, ?_⟩
  rw [paired_iff_map]
  decide +kernel

end Rojcpp.Judge
