import Mathlib.Algebra.BigOperators.Intervals
import Rojcpp.Cpp.Text

/-!
# Writing to the log file

`fileUtil::append` calls `fwrite_unlocked` until all bytes of a buffer are written.  What a call
returns is up to the environment: the number of bytes the stream took, at most those it was given.
An error is printed, and the loop goes on.

The loop has fuel, since it need not end: when the stream takes nothing any more, it calls for ever.
`append_iff` says that this is the only way to fail.
-/

namespace Rojcpp.Logger

open Finset

/-! ### The code -/

/-- What the calls of `fwrite_unlocked` do, one after the other: the bytes the stream would take,
what `ferror` says behind the call, and the texts of the errors. -/
structure Disk where
  takes : ℕ → ℕ
  ferror : ℕ → ℤ
  errnoMsg : ℤ → Str

/-- `fileUtil`; `file` is all that went into the stream. -/
structure FileUtil where
  file : Str
  writtenBytes : ℕ

/-- The state of the loop; `reports` is what was printed. -/
structure Appending where
  file : Str
  written : ℕ
  reports : List Str

/-- `write`, as call number `i`. -/
def Disk.write (disk : Disk) (i : ℕ) (data : Str) : ℕ := min (disk.takes i) data.length

/-- One turn of the loop. -/
def Appending.turn (disk : Disk) (data : Str) (i : ℕ) (s : Appending) : Appending :=
  let remain := data.length - s.written
  let n := disk.write i (data.drop s.written)
  { file := s.file ++ (data.drop s.written).take n
    written := s.written + n
    reports :=
      if n ≠ remain ∧ disk.ferror i ≠ 0 then
        s.reports ++ [ascii "fileUtil::append() failed " ++ disk.errnoMsg (disk.ferror i) ++ [10]]
      else s.reports }

/-- The loop, from call number `i` on. -/
def Appending.loop (disk : Disk) (data : Str) : ℕ → ℕ → Appending → Option Appending
  | fuel, i, s =>
    if s.written = data.length then some s
    else
      match fuel with
      | 0 => none
      | fuel + 1 => loop disk data fuel (i + 1) (s.turn disk data i)

/-- `append`, with the reports. -/
def FileUtil.append (disk : Disk) (fuel : ℕ) (f : FileUtil) (data : Str) :
    Option (FileUtil × List Str) :=
  (Appending.loop disk data fuel 0 ⟨f.file, 0, []⟩).map fun s =>
    (⟨s.file, f.writtenBytes + s.written⟩, s.reports)

/-! ### Disks -/

/-- The bytes the first `N` calls would take. -/
def Disk.capacity (disk : Disk) (N : ℕ) : ℕ := ∑ i ∈ range N, disk.takes i

/-- From some call on the disk takes nothing, and up to there fewer than `len` bytes. -/
def Disk.FullBefore (disk : Disk) (len : ℕ) : Prop :=
  ∃ N, (∀ i ≥ N, disk.takes i = 0) ∧ disk.capacity N < len

theorem Disk.capacity_succ (disk : Disk) (N : ℕ) :
    disk.capacity (N + 1) = disk.capacity N + disk.takes N := sum_range_succ _ _

theorem Disk.capacity_mono (disk : Disk) : Monotone disk.capacity :=
  monotone_nat_of_le_succ fun N => by
    rw [disk.capacity_succ]
    exact Nat.le_add_right _ _

/-- A disk that takes nothing any more has the capacity it has. -/
theorem Disk.capacity_of_zero {disk : Disk} {N : ℕ} (h : ∀ i ≥ N, disk.takes i = 0) :
    ∀ M, disk.capacity M ≤ disk.capacity N := by
  intro M
  rcases le_total M N with hle | hle
  · exact disk.capacity_mono hle
  · refine le_of_eq ?_
    induction M, hle using Nat.le_induction with
    | base => rfl
    | succ M hM ih => rw [disk.capacity_succ, ih, h M hM, Nat.add_zero]

/-- A disk that is not full before `len` bytes takes as many as one likes up to `len`. -/
theorem Disk.exists_capacity_ge {disk : Disk} {len : ℕ} (h : ¬disk.FullBefore len) :
    ∀ k ≤ len, ∃ N, k ≤ disk.capacity N := by
  intro k
  induction k with
  | zero => exact fun _ => ⟨0, Nat.zero_le _⟩
  | succ k ih =>
    intro hk
    obtain ⟨N, hN⟩ := ih (Nat.le_of_succ_le hk)
    by_cases hmore : k + 1 ≤ disk.capacity N
    · exact ⟨N, hmore⟩
    · -- Some later call takes something, for the disk is not full.
      have htakes : ∃ i ≥ N, disk.takes i ≠ 0 := by
        by_contra hnone
        push Not at hnone
        exact h ⟨N, hnone, by omega⟩
      obtain ⟨i, hi, hpos⟩ := htakes
      have hmono := disk.capacity_mono hi
      have hsucc := disk.capacity_succ i
      exact ⟨i + 1, by omega⟩

theorem Disk.fullBefore_iff {disk : Disk} {len : ℕ} :
    ¬disk.FullBefore len ↔ ∃ N, len ≤ disk.capacity N := by
  constructor
  · exact fun h => Disk.exists_capacity_ge h len le_rfl
  · intro hroom hfull
    obtain ⟨M, hM⟩ := hroom
    obtain ⟨N, hzero, hless⟩ := hfull
    have hle := Disk.capacity_of_zero hzero M
    omega

/-! ### The loop -/

/-- Before call number `i`: the file holds the bytes the disk took, in their order. -/
structure Progress (disk : Disk) (old data : Str) (i : ℕ) (s : Appending) : Prop where
  written : s.written = min (disk.capacity i) data.length
  file : s.file = old ++ data.take s.written

theorem progress_start (disk : Disk) (old data : Str) :
    Progress disk old data 0 ⟨old, 0, []⟩ where
  written := (Nat.zero_min _).symm
  file := (List.append_nil old).symm

/-- The step: one turn. -/
theorem Progress.turn {disk : Disk} {old data : Str} {i : ℕ} {s : Appending}
    (h : Progress disk old data i s) : Progress disk old data (i + 1) (s.turn disk data i) := by
  have hn : disk.write i (data.drop s.written) = min (disk.takes i) (data.length - s.written) := by
    rw [Disk.write, List.length_drop]
  refine ⟨?_, ?_⟩
  · show s.written + disk.write i (data.drop s.written) = _
    have hwritten := h.written
    rw [hn, disk.capacity_succ]
    omega
  · show s.file ++ (data.drop s.written).take (disk.write i (data.drop s.written)) =
      old ++ data.take (s.written + disk.write i (data.drop s.written))
    rw [h.file, List.append_assoc, List.take_add]

/-- The run: what the loop returns was reached in some number of turns. -/
theorem Progress.loop {disk : Disk} {old data : Str} (fuel : ℕ) :
    ∀ {i : ℕ} {s s' : Appending}, Progress disk old data i s →
      Appending.loop disk data fuel i s = some s' →
      s'.written = data.length ∧ ∃ j, Progress disk old data j s' := by
  induction fuel with
  | zero =>
    intro i s s' h hrun
    rw [Appending.loop] at hrun
    split at hrun
    · rename_i hdone
      obtain rfl : s = s' := Option.some.inj hrun
      exact ⟨hdone, i, h⟩
    · cases hrun
  | succ fuel ih =>
    intro i s s' h hrun
    rw [Appending.loop] at hrun
    split at hrun
    · rename_i hdone
      obtain rfl : s = s' := Option.some.inj hrun
      exact ⟨hdone, i, h⟩
    · exact ih h.turn hrun

/-- A disk with room for all bytes lets the loop return. -/
theorem Progress.returns {disk : Disk} {old data : Str} {N : ℕ}
    (hN : data.length ≤ disk.capacity N) (fuel : ℕ) :
    ∀ {i : ℕ} {s : Appending}, Progress disk old data i s → N ≤ i + fuel →
      ∃ s', Appending.loop disk data fuel i s = some s' := by
  induction fuel with
  | zero =>
    intro i s h hi
    have hcapacity := hN.trans (disk.capacity_mono hi)
    have hdone : s.written = data.length := by
      rw [h.written]
      exact min_eq_right hcapacity
    exact ⟨s, by rw [Appending.loop, if_pos hdone]⟩
  | succ fuel ih =>
    intro i s h hi
    by_cases hdone : s.written = data.length
    · exact ⟨s, by rw [Appending.loop, if_pos hdone]⟩
    · obtain ⟨s', hrun⟩ := ih h.turn (by omega)
      exact ⟨s', by rw [Appending.loop, if_neg hdone]; exact hrun⟩

/-! ### `append` -/

/-- What `append` returns with: the buffer behind the old bytes, and its length counted. -/
theorem append_some {disk : Disk} {fuel : ℕ} {f : FileUtil} {data : Str} {r : FileUtil × List Str}
    (h : f.append disk fuel data = some r) :
    r.1.file = f.file ++ data ∧ r.1.writtenBytes = f.writtenBytes + data.length := by
  rw [FileUtil.append] at h
  obtain ⟨s, hrun, rfl⟩ := Option.map_eq_some_iff.mp h
  obtain ⟨hwritten, j, hj⟩ := Progress.loop fuel (progress_start disk f.file data) hrun
  refine ⟨?_, congrArg (f.writtenBytes + ·) hwritten⟩
  show s.file = f.file ++ data
  rw [hj.file, hwritten, List.take_length]

/-- `append` returns exactly when the calls together take enough bytes. -/
theorem append_returns_iff {disk : Disk} {f : FileUtil} {data : Str} :
    (∃ fuel r, f.append disk fuel data = some r) ↔ ∃ N, data.length ≤ disk.capacity N := by
  constructor
  · intro hreturn
    obtain ⟨fuel, r, h⟩ := hreturn
    rw [FileUtil.append] at h
    obtain ⟨s, hrun, -⟩ := Option.map_eq_some_iff.mp h
    obtain ⟨hwritten, j, hj⟩ := Progress.loop fuel (progress_start disk f.file data) hrun
    have hmin := hj.written
    exact ⟨j, by omega⟩
  · intro hroom
    obtain ⟨N, hN⟩ := hroom
    obtain ⟨s, hrun⟩ :=
      Progress.returns hN N (progress_start disk f.file data) (Nat.le_add_left N 0)
    exact ⟨N, _, by rw [FileUtil.append, hrun]; rfl⟩

/-- **A buffer is written once and in order, unless the disk is full**: for every buffer and
everything the calls do, `append` returns, with the bytes in the file and counted if it reports
nothing, exactly when the calls do not take nothing from some point on before all is written. -/
theorem append_iff (disk : Disk) (f : FileUtil) (data : Str) :
    (∃ fuel r, f.append disk fuel data = some r ∧
      (r.2 = [] → r.1.file = f.file ++ data ∧
        r.1.writtenBytes = f.writtenBytes + data.length)) ↔ ¬disk.FullBefore data.length := by
  rw [Disk.fullBefore_iff, ← append_returns_iff]
  constructor
  · intro hcorrect
    obtain ⟨fuel, r, h, -⟩ := hcorrect
    exact ⟨fuel, r, h⟩
  · intro hreturn
    obtain ⟨fuel, r, h⟩ := hreturn
    exact ⟨fuel, r, h, fun _ => append_some h⟩

/-- A disk with no place left.  `ferror` is a flag and not the error's number. -/
def fullDisk : Disk where
  takes _ := 0
  ferror _ := 1
  errnoMsg _ := ascii "Operation not permitted"

theorem append_fullDisk :
    ¬∃ fuel r, FileUtil.append fullDisk fuel ⟨[], 0⟩ (ascii "x") = some r ∧
      (r.2 = [] → r.1.file = [] ++ ascii "x" ∧ r.1.writtenBytes = 0 + 1) := by
  intro hcorrect
  obtain ⟨fuel, r, h, -⟩ := hcorrect
  obtain ⟨N, hN⟩ := append_returns_iff.mp ⟨fuel, r, h⟩
  have hzero : fullDisk.capacity N = 0 := sum_eq_zero fun _ _ => rfl
  rw [hzero] at hN
  exact absurd hN (by decide)

end Rojcpp.Logger
