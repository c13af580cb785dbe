import Rojcpp.Judge.Verdict

/-!
# What the judger's text leaves in a result

`__judger` reads seven fields from what the judger printed into a `RESULT` that starts as whatever
stood on the stack.  A read that finds nothing but blanks leaves its field alone, one that finds no
integer stores 0, one that finds an integer beyond the type stores the nearest bound; after any of
these the stream is bad, and the later fields are left alone.

`readResult_left` says which fields are left different from 0, in terms of the integers the text
begins with and of the memory before.  A field that happens to be 0 makes an empty text a run that
was accepted or a compilation that succeeded.
-/

namespace Rojcpp.Judge

open Rojcpp.Lib

/-! ### The text -/

/-- A text starts with `n` integers with blanks between them. -/
def startsWithInts : ℕ → Str → Bool
  | 0, _ => true
  | n + 1, s =>
    match scanInt (s.dropWhile isSpace) with
    | (none, _) => false
    | (some _, rest) => n == 0 || (rest.head?.any isSpace && startsWithInts n rest)

/-- The integers a text begins with, at most `n` of them, and whether something that is no integer
stands behind them. -/
def leadingInts : ℕ → Str → List ℤ × Bool
  | 0, _ => ([], false)
  | n + 1, s =>
    match s.dropWhile isSpace with
    | [] => ([], false)
    | c :: t =>
      match scanInt (c :: t) with
      | (none, _) => ([], true)
      | (some v, rest) => (v :: (leadingInts n rest).1, (leadingInts n rest).2)

/-- There are integers for the first `i` fields, and each is in the range of its field. -/
def Reached (ranges : List (ℤ × ℤ)) (ns : List ℤ) (i : ℕ) : Prop :=
  i ≤ ns.length ∧ ∀ p ∈ (ns.zip ranges).take i, p.2.1 ≤ p.1 ∧ p.1 ≤ p.2.2

/-- The field `i`, with `old` before, is different from 0 after the text is read: there is another
integer than 0 for it, or the reading does not get there, or ends there with the text, and `old` is
different from 0. -/
def LeftNonzero (ranges : List (ℤ × ℤ)) (s : Str) (i : ℕ) (old : ℤ) : Prop :=
  let (ns, other) := leadingInts ranges.length s
  (Reached ranges ns i → match ns[i]? with
    | some v => v ≠ 0
    | none => other = false ∧ old ≠ 0) ∧
  (¬Reached ranges ns i → old ≠ 0)

/-- The range of `int`. -/
def intRange : ℤ × ℤ := (-2 ^ 31, 2 ^ 31 - 1)

/-- The range of `long`. -/
def longRange : ℤ × ℤ := (-2 ^ 63, 2 ^ 63 - 1)

/-- The ranges of the seven fields, as they are read. -/
def fieldRanges : List (ℤ × ℤ) :=
  [intRange, intRange, longRange, intRange, intRange, intRange, intRange]

/-- The seven fields. -/
def Result.fields (r : Result) : List ℤ :=
  [r.cpuTime.toInt, r.realTime.toInt, r.memory.toInt, r.signal.toInt, r.exitCode.toInt,
    r.error.toInt, r.result.toInt]

/-- Reads in a row. -/
def extractAll : List (ℤ × ℤ) → IStream → List ℤ → List ℤ
  | range :: ranges, s, old :: olds =>
    let r := s.extract range.1 range.2 old
    r.1 :: extractAll ranges r.2 olds
  | _, _, _ => []

/-! ### One read -/

/-- A stream that is not good changes nothing. -/
theorem extract_bad (lo hi : ℤ) {s : IStream} (old : ℤ) (h : (s.eof || s.fail) = true) :
    s.extract lo hi old = (old, { s with fail := true }) := by
  rw [IStream.extract, if_pos h]

theorem extractAll_bad (ranges : List (ℤ × ℤ)) : ∀ (s : IStream) (olds : List ℤ),
    (s.eof || s.fail) = true → olds.length = ranges.length →
    extractAll ranges s olds = olds := by
  induction ranges with
  | nil =>
    intro s olds _ hlen
    rw [List.length_eq_zero_iff.mp hlen]
    rfl
  | cons range ranges ih =>
    intro s olds hbad hlen
    cases olds with
    | nil => cases hlen
    | cons old olds =>
      rw [extractAll, extract_bad _ _ _ hbad]
      show old :: extractAll ranges { s with fail := true } olds = _
      rw [ih _ olds (Bool.or_true _) (Nat.succ.inj hlen)]

/-- A read stays within the range of its type. -/
theorem extract_range (lo hi : ℤ) (s : IStream) (old : ℤ) (hzero : lo ≤ 0 ∧ 0 ≤ hi)
    (hold : lo ≤ old ∧ old ≤ hi) : lo ≤ (s.extract lo hi old).1 ∧ (s.extract lo hi old).1 ≤ hi := by
  rw [IStream.extract]
  split
  · exact hold
  · split
    · exact hold
    · split
      · exact hzero
      · split
        · exact ⟨Int.le_refl lo, Int.le_trans hzero.1 hzero.2⟩
        · split
          · exact ⟨Int.le_trans hzero.1 hzero.2, Int.le_refl hi⟩
          · exact ⟨Int.not_lt.mp ‹_›, Int.not_lt.mp ‹_›⟩

/-! ### The integers in front -/

section
variable {range : ℤ × ℤ} {ranges : List (ℤ × ℤ)} {s : Str} {i : ℕ} {old : ℤ}

/-- The first field is always reached. -/
theorem reached_zero (ranges : List (ℤ × ℤ)) (ns : List ℤ) : Reached ranges ns 0 :=
  ⟨Nat.zero_le _, fun p hp => by rw [List.take_zero] at hp; exact absurd hp List.not_mem_nil⟩

theorem reached_nil (ranges : List (ℤ × ℤ)) (i : ℕ) : ¬Reached ranges [] (i + 1) :=
  fun h => absurd h.1 (Nat.not_succ_le_zero i)

theorem reached_succ (range : ℤ × ℤ) (ranges : List (ℤ × ℤ)) (v : ℤ) (ns : List ℤ) (i : ℕ) :
    Reached (range :: ranges) (v :: ns) (i + 1) ↔
      (range.1 ≤ v ∧ v ≤ range.2) ∧ Reached ranges ns i := by
  rw [Reached, Reached, List.zip_cons_cons, List.take_succ_cons, List.forall_mem_cons,
    List.length_cons, Nat.add_le_add_iff_right, and_left_comm]

/-- Nothing but blanks: the memory decides about every field. -/
theorem leftNonzero_blank (hs : s.dropWhile isSpace = []) :
    LeftNonzero ranges s i old ↔ old ≠ 0 := by
  have hread : leadingInts ranges.length s = ([], false) := by
    cases ranges with
    | nil => rfl
    | cons range ranges => rw [List.length_cons, leadingInts, hs]
  rw [LeftNonzero, hread]
  show (_ → false = false ∧ old ≠ 0) ∧ _ ↔ _
  by_cases hreached : Reached ranges [] i
  · exact ⟨fun h => (h.1 hreached).2, fun h => ⟨fun _ => ⟨rfl, h⟩, fun _ => h⟩⟩
  · exact ⟨fun h => h.2 hreached, fun h => ⟨fun _ => ⟨rfl, h⟩, fun _ => h⟩⟩

/-- No integer in front: the first field is 0. -/
theorem leftNonzero_other {c : UInt8} {t rest : Str} (hs : s.dropWhile isSpace = c :: t)
    (hscan : scanInt (c :: t) = (none, rest)) :
    LeftNonzero (range :: ranges) s i old ↔ i ≠ 0 ∧ old ≠ 0 := by
  have hread : leadingInts (range :: ranges).length s = ([], true) := by
    rw [List.length_cons, leadingInts, hs]
    simp only [hscan]
  rw [LeftNonzero, hread]
  cases i with
  | zero =>
    refine iff_of_false (fun h => ?_) (fun h => h.1 rfl)
    exact Bool.noConfusion (h.1 (reached_zero _ _)).1
  | succ i =>
    have hnot := reached_nil (range :: ranges) i
    exact ⟨fun h => ⟨Nat.succ_ne_zero i, h.2 hnot⟩, fun h => ⟨fun hr => absurd hr hnot,
      fun _ => h.2⟩⟩

/-- An integer in front is for the first field, and the others are read from what is behind it
where it is in range. -/
theorem leftNonzero_int {c : UInt8} {t rest : Str} {v : ℤ} (hs : s.dropWhile isSpace = c :: t)
    (hscan : scanInt (c :: t) = (some v, rest)) :
    LeftNonzero (range :: ranges) s i old ↔
      match i with
      | 0 => v ≠ 0
      | i + 1 => if range.1 ≤ v ∧ v ≤ range.2 then LeftNonzero ranges rest i old else old ≠ 0 := by
  have hread : leadingInts (range :: ranges).length s =
      (v :: (leadingInts ranges.length rest).1, (leadingInts ranges.length rest).2) := by
    rw [List.length_cons, leadingInts, hs]
    simp only [hscan]
  rw [LeftNonzero, hread]
  cases i with
  | zero => exact ⟨fun h => h.1 (reached_zero _ _), fun h => ⟨fun _ => h, fun hnot =>
      absurd (reached_zero _ _) hnot⟩⟩
  | succ i =>
    show (Reached (range :: ranges) (v :: (leadingInts ranges.length rest).1) (i + 1) → _) ∧
      (¬Reached (range :: ranges) (v :: (leadingInts ranges.length rest).1) (i + 1) → _) ↔ _
    rw [reached_succ]
    show _ ↔ if range.1 ≤ v ∧ v ≤ range.2 then LeftNonzero ranges rest i old else old ≠ 0
    by_cases hv : range.1 ≤ v ∧ v ≤ range.2
    · rw [if_pos hv, LeftNonzero]
      simp only [hv, and_self, true_and, List.getElem?_cons_succ]
    · rw [if_neg hv]
      exact ⟨fun h => h.2 fun hr => hv hr.1, fun h => ⟨fun hr => absurd hr.1 hv, fun _ => h⟩⟩

end

/-! ### Seven reads -/

/-- What a read from a good stream does. -/
theorem extract_good {s : IStream} (hgood : (s.eof || s.fail) = false) (lo hi old : ℤ) :
    s.extract lo hi old = match s.rest.dropWhile isSpace with
      | [] => (old, ⟨[], true, true⟩)
      | c :: t => match scanInt (c :: t) with
        | (none, rest) => (0, ⟨rest, rest.isEmpty, true⟩)
        | (some v, rest) =>
          if v < lo then (lo, ⟨rest, rest.isEmpty, true⟩)
          else if hi < v then (hi, ⟨rest, rest.isEmpty, true⟩)
          else (v, ⟨rest, rest.isEmpty, false⟩) := by
  rw [IStream.extract, hgood]
  rfl

/-- For an integer out of a range around 0, which is not 0, a bound is stored, which is not 0
either, and the stream is bad. -/
theorem extract_outside {s : IStream} (hgood : (s.eof || s.fail) = false) {lo hi v : ℤ} (old : ℤ)
    (hlo : lo < 0) (hhi : 0 < hi) {c : UInt8} {t rest : Str}
    (hs : s.rest.dropWhile isSpace = c :: t) (hscan : scanInt (c :: t) = (some v, rest))
    (hv : ¬(lo ≤ v ∧ v ≤ hi)) :
    v ≠ 0 ∧ ∃ x s', s.extract lo hi old = (x, s') ∧ x ≠ 0 ∧ (s'.eof || s'.fail) = true := by
  refine ⟨by omega, ?_⟩
  have hextract := extract_good hgood lo hi old
  rw [hs] at hextract
  simp only [hscan] at hextract
  by_cases hsmall : v < lo
  · rw [if_pos hsmall] at hextract
    exact ⟨_, _, hextract, by omega, Bool.or_true _⟩
  · rw [if_neg hsmall, if_pos (by omega)] at hextract
    exact ⟨_, _, hextract, by omega, Bool.or_true _⟩

/-- A read that leaves the stream bad is the last one that stores anything. -/
theorem extractAll_last {range : ℤ × ℤ} {ranges : List (ℤ × ℤ)} {s s' : IStream} {old x : ℤ}
    {olds : List ℤ} (hlen : olds.length = ranges.length)
    (hx : s.extract range.1 range.2 old = (x, s')) (hs' : (s'.eof || s'.fail) = true) :
    extractAll (range :: ranges) s (old :: olds) = x :: olds := by
  rw [extractAll, hx]
  show x :: extractAll ranges s' olds = _
  rw [extractAll_bad ranges s' olds hs' hlen]

/-- **What is left in the fields**, for any ranges around 0 and any memory. -/
theorem extractAll_left (ranges : List (ℤ × ℤ)) (hranges : ∀ p ∈ ranges, p.1 < 0 ∧ 0 < p.2) :
    ∀ (s : IStream) (olds : List ℤ) (i : ℕ), s.fail = false → (s.eof = true → s.rest = []) →
      olds.length = ranges.length → i < ranges.length →
      ((extractAll ranges s olds).getD i 0 ≠ 0 ↔
        LeftNonzero ranges s.rest i (olds.getD i 0)) := by
  induction ranges with
  | nil => exact fun _ _ _ _ _ _ hi => absurd hi (Nat.not_lt_zero _)
  | cons range ranges ih =>
    intro s olds i hfail heof hlen hi
    cases olds with
    | nil => cases hlen
    | cons old olds =>
      have hrest := Nat.succ.inj hlen
      obtain ⟨hlo, hhi⟩ := hranges range List.mem_cons_self
      by_cases hend : s.eof = true
      · have hbadstream : (s.eof || s.fail) = true := by rw [hend]; rfl
        rw [extractAll_last hrest (extract_bad _ _ _ hbadstream) (Bool.or_true _),
          leftNonzero_blank (by rw [heof hend]; rfl)]
      · have hgood : (s.eof || s.fail) = false := by
          rw [hfail, Bool.or_false]
          exact eq_false_of_ne_true hend
        have hextract := extract_good hgood range.1 range.2 old
        cases hs : s.rest.dropWhile isSpace with
        | nil =>
          rw [hs] at hextract
          rw [extractAll_last hrest hextract rfl, leftNonzero_blank hs]
        | cons c t =>
          rw [hs] at hextract
          cases hscan : scanInt (c :: t) with
          | mk found rest =>
            cases found with
            | none =>
              simp only [hscan] at hextract
              rw [extractAll_last hrest hextract (Bool.or_true _), leftNonzero_other hs hscan]
              cases i with
              | zero => exact iff_of_false (fun h => h rfl) (fun h => h.1 rfl)
              | succ i => exact ⟨fun h => ⟨Nat.succ_ne_zero i, h⟩, fun h => h.2⟩
            | some v =>
              rw [leftNonzero_int hs hscan]
              by_cases hv : range.1 ≤ v ∧ v ≤ range.2
              · simp only [hscan] at hextract
                rw [if_neg (Int.not_lt.mpr hv.1), if_neg (Int.not_lt.mpr hv.2)] at hextract
                rw [extractAll, hextract]
                cases i with
                | zero => exact Iff.rfl
                | succ i =>
                  show (extractAll ranges ⟨rest, rest.isEmpty, false⟩ olds).getD i 0 ≠ 0 ↔
                    if range.1 ≤ v ∧ v ≤ range.2 then LeftNonzero ranges rest i (olds.getD i 0)
                    else _
                  rw [if_pos hv]
                  exact ih (fun p hp => hranges p (List.mem_cons_of_mem _ hp))
                    ⟨rest, rest.isEmpty, false⟩ olds i rfl List.isEmpty_iff.mp hrest
                    (Nat.lt_of_succ_lt_succ hi)
              · obtain ⟨hv0, x, s', hx, hx0, hs'⟩ := extract_outside hgood old hlo hhi hs hscan hv
                rw [extractAll_last hrest hx hs']
                cases i with
                | zero => exact iff_of_true hx0 hv0
                | succ i =>
                  show olds.getD i 0 ≠ 0 ↔
                    if range.1 ≤ v ∧ v ≤ range.2 then _ else olds.getD i 0 ≠ 0
                  rw [if_neg hv]

theorem extractInt_toInt (s : IStream) (old : Int32) :
    (s.extractInt old).1.toInt = (s.extract intRange.1 intRange.2 old.toInt).1 := by
  have hlo := old.le_toInt
  have hhi := old.toInt_lt
  have hrange := extract_range intRange.1 intRange.2 s old.toInt (by decide)
    ⟨hlo, Int.le_sub_one_of_lt hhi⟩
  exact Int32.toInt_ofInt_of_le hrange.1 (Int.lt_of_le_sub_one hrange.2)

theorem extractLong_toInt (s : IStream) (old : Int64) :
    (s.extractLong old).1.toInt = (s.extract longRange.1 longRange.2 old.toInt).1 := by
  have hlo := old.le_toInt
  have hhi := old.toInt_lt
  have hrange := extract_range longRange.1 longRange.2 s old.toInt (by decide)
    ⟨hlo, Int.le_sub_one_of_lt hhi⟩
  exact Int64.toInt_ofInt_of_le hrange.1 (Int.lt_of_le_sub_one hrange.2)

/-- The reads of `__judger` are seven reads in a row. -/
theorem readResult_fields (out : Str) (old : Result) :
    (readResult out old).fields = extractAll fieldRanges (IStream.ofStr out) old.fields := by
  simp only [Result.fields, readResult, extractInt_toInt, extractLong_toInt]
  rfl

/-- **What `__judger` leaves in the fields.** -/
theorem readResult_left (out : Str) (old : Result) {i : ℕ} (hi : i < 7) :
    (readResult out old).fields.getD i 0 ≠ 0 ↔
      LeftNonzero fieldRanges out i (old.fields.getD i 0) := by
  rw [readResult_fields]
  exact extractAll_left fieldRanges (by decide) (IStream.ofStr out) old.fields i rfl nofun rfl hi

/-! ### Taken for a success -/

/-- The `k`-th command prints this text, over this memory. -/
def Prints (host : Host) (k : ℕ) (printed : Str) (old : Result) : Prop :=
  (∀ cmd fs out, host.popen k cmd fs = some out → out.1 = printed) ∧ host.residue k = old

/-- `Judge` never returns the result of an accepted run for such a command. -/
def NeverAccepted (printed : Str) (old : Result) : Prop :=
  ∀ host k args outFile fs r, Prints host k printed old →
    judge host k args outFile fs = .ok r → r.1.result ≠ ResultMean.accept.toInt

/-- `work_stage1` never goes on from the compilation for such a command. -/
def NeverCompiled (printed : Str) (old : Result) : Prop :=
  ∀ host jn, Prints host 0 printed old →
    ∀ m ∈ workStage1 host jn, m.code ≠ JudgeResultId.success.toInt

/-- The text in the stream: the copy `exec` makes of what is printed. -/
def streamText (printed : Str) : Str := fgetsCopy 127 false printed

section
variable {printed : Str} {old : Result}

/-- A report whose result is 0 comes back as one, and one that is not stays that way. -/
theorem verdict_rejected {args : JudgeArgs} {outFile : Path} {fs : FileSystem} {r : Result}
    (h : r.result ≠ 0) : (verdict args outFile fs r).result ≠ ResultMean.accept.toInt := by
  rw [verdict, if_pos (.inr h)]
  exact h

theorem toInt_ne_zero {x : Int32} : x.toInt ≠ 0 ↔ x ≠ 0 := by
  rw [ne_eq, ne_eq, ← Int32.toInt_zero, Int32.toInt_inj]

/-- What `__judger` returns for such a command. -/
theorem judger_ok {host : Host} {k : ℕ} {args : JudgeArgs} {fs : FileSystem}
    {r : Result × FileSystem} (hprints : Prints host k printed old)
    (h : judger host k args fs = .ok r) : r.1 = readResult (streamText printed) old := by
  simp only [judger, exec] at h
  cases hrun : host.popen k (cStr (judgerBin ++ args.toStr)) fs with
  | none =>
    rw [hrun] at h
    cases h
  | some out =>
    obtain ⟨text, fs'⟩ := out
    rw [hrun] at h
    cases h
    have htext : text = printed := hprints.1 _ _ _ hrun
    show readResult (fgetsCopy 127 false text) (host.residue k) = _
    rw [hprints.2, htext]
    rfl

/-- A host that prints a text for every command, over this memory. -/
def printingHost (printed : Str) (old : Result) : Host :=
  { exampleHost with
    popen := fun _ _ fs => some (printed, fs)
    residue := fun _ => old }

theorem printingHost_prints (k : ℕ) : Prints (printingHost printed old) k printed old :=
  ⟨fun _ _ _ hout => by cases hout; rfl, rfl⟩

/-- Arguments without limits. -/
def unlimitedArgs : JudgeArgs :=
  JudgeArgs.new unlimit unlimit unlimit unlimit unlimit unlimit [] [] [] [] [] [] [] 0 0

/-- A report whose result is 0 is accepted where there is no memory limit and no answer file. -/
theorem verdict_accepted {r : Result} (h : r.result = 0) :
    (verdict unlimitedArgs [] exampleFiles r).result = ResultMean.accept.toInt := by
  rw [verdict]
  split
  · exact h
  · have hmemory : overMemory unlimitedArgs r = false := rfl
    have hcheck : noipstyleCheck (exampleFiles.read unlimitedArgs.outputPath)
        (exampleFiles.read []) = true := noipstyleCheck_empty _ _ rfl
    rw [hmemory, hcheck]
    exact h

/-- **`Judge` returns an accepted run for some arguments exactly when the field `result` is left
0.** -/
theorem neverAccepted_iff : NeverAccepted printed old ↔
    LeftNonzero fieldRanges (streamText printed) 6 old.result.toInt := by
  have hleft := readResult_left (streamText printed) old (i := 6) (by decide)
  rw [show (readResult (streamText printed) old).fields.getD 6 0 =
    (readResult (streamText printed) old).result.toInt from rfl, toInt_ne_zero] at hleft
  refine Iff.trans ?_ hleft
  constructor
  · intro h hresult
    refine h (printingHost printed old) 0 unlimitedArgs [] exampleFiles _
      (printingHost_prints 0) rfl ?_
    exact verdict_accepted hresult
  · intro hresult host k args outFile fs r hprints h
    rw [judge] at h
    obtain ⟨report, hreport, hr⟩ := bind_ok_iff.mp h
    cases hr
    show (verdict args outFile report.2 report.1).result ≠ _
    rw [judger_ok hprints hreport]
    exact verdict_rejected hresult

/-- The test of `work_stage1` on what is read. -/
theorem compileFailed_iff (r : Result) :
    compileFailed r = true ↔ r.result ≠ 0 ∨ r.error ≠ 0 ∨ r.exitCode ≠ 0 := by
  rw [compileFailed, Bool.or_eq_true, Bool.or_eq_true, bne_iff_ne, bne_iff_ne, bne_iff_ne, or_assoc]

/-- **`work_stage1` goes on from the compilation of some submission exactly when the fields
`exit_code`, `error` and `result` are all left 0.** -/
theorem neverCompiled_iff : NeverCompiled printed old ↔
    LeftNonzero fieldRanges (streamText printed) 6 old.result.toInt ∨
    LeftNonzero fieldRanges (streamText printed) 5 old.error.toInt ∨
    LeftNonzero fieldRanges (streamText printed) 4 old.exitCode.toInt := by
  have hresult := readResult_left (streamText printed) old (i := 6) (by decide)
  have herror := readResult_left (streamText printed) old (i := 5) (by decide)
  have hexit := readResult_left (streamText printed) old (i := 4) (by decide)
  have hleft : compileFailed (readResult (streamText printed) old) = true ↔ _ :=
    (compileFailed_iff _).trans
      (or_congr (toInt_ne_zero.symm.trans hresult)
        (or_congr (toInt_ne_zero.symm.trans herror) (toInt_ne_zero.symm.trans hexit)))
  refine Iff.trans ?_ hleft
  constructor
  · intro h
    by_contra hcompiled
    have hstage : workStage1 (printingHost printed old) exampleNode =
        judgeAll (printingHost printed old) exampleNode exampleWorkspace := by
      have hlang : ¬isSportLanguage exampleNode.language = false := by decide
      have hprepare : prepare (printingHost printed old) exampleNode (.ofName _ hlang) =
          .ok exampleWorkspace := rfl
      have hrun : judger (printingHost printed old) 0
          (compileCPPArgs exampleWorkspace.workPath codeName) exampleWorkspace.files =
          .ok (readResult (streamText printed) old, exampleWorkspace.files) := rfl
      refine workStage1_compiled _ _ _ ?_
      rw [compiled, dif_neg hlang, hprepare]
      simp only [hrun]
      exact if_neg hcompiled
    have hfirst : MessageResultJudge.new exampleNode.key .success
        (ascii "allSize:" ++ decimal exampleWorkspace.problem.inputData.length) ∈
          workStage1 (printingHost printed old) exampleNode := by
      rw [hstage]
      exact List.mem_cons_self
    exact h (printingHost printed old) exampleNode (printingHost_prints 0) _ hfirst rfl
  · intro hfailed host jn hprints m hm
    have hnone : compiled host jn = none := by
      rw [compiled]
      split
      · rfl
      · split
        · rfl
        · split
          · rfl
          · rename_i w _ r fs hrun
            have hr : r = readResult (streamText printed) old := judger_ok hprints hrun
            rw [hr, if_pos hfailed]
    rcases workStage1_not_compiled host jn hnone m hm with hcode | hcode
    · rw [hcode]
      decide
    · rw [hcode]
      decide

end

/-- **When a text that is no report counts as a failure.**  For every text and every memory before:
a text that does not start with seven integers is neither an accepted run nor a compilation that
succeeded if and only if it leaves the field `result` different from 0; and it is no compilation
that succeeded if and only if it leaves `result`, `error` or `exit_code` different from 0. -/
theorem no_report_refused_iff (printed : Str) (old : Result) :
    ((startsWithInts 7 printed = false → NeverAccepted printed old ∧ NeverCompiled printed old) ↔
      startsWithInts 7 printed = true ∨
        LeftNonzero fieldRanges (streamText printed) 6 old.result.toInt) ∧
    ((startsWithInts 7 printed = false → NeverCompiled printed old) ↔
      startsWithInts 7 printed = true ∨
        LeftNonzero fieldRanges (streamText printed) 6 old.result.toInt ∨
        LeftNonzero fieldRanges (streamText printed) 5 old.error.toInt ∨
        LeftNonzero fieldRanges (streamText printed) 4 old.exitCode.toInt) := by
  rw [neverAccepted_iff, neverCompiled_iff]
  cases startsWithInts 7 printed with
  | true => exact ⟨iff_of_true (fun h => Bool.noConfusion h) (.inl rfl),
      iff_of_true (fun h => Bool.noConfusion h) (.inl rfl)⟩
  | false =>
    exact ⟨⟨fun h => .inr (h rfl).1, fun h _ => h.elim (fun h => Bool.noConfusion h) fun hleft =>
      ⟨hleft, .inl hleft⟩⟩, ⟨fun h => .inr (h rfl), fun h _ =>
      h.elim (fun h => Bool.noConfusion h) id⟩⟩

/-- Nothing is printed over a memory of zeros: the run is accepted, and a compilation goes on. -/
theorem empty_text_accepted :
    startsWithInts 7 [] = false ∧ ¬NeverAccepted [] ⟨0, 0, 0, 0, 0, 0, 0⟩ ∧
      ¬NeverCompiled [] ⟨0, 0, 0, 0, 0, 0, 0⟩ := by
  have hblank : ∀ i, ¬LeftNonzero fieldRanges (streamText []) i 0 := by
    intro i h
    exact (leftNonzero_blank rfl).mp h rfl
  refine ⟨rfl, ?_, ?_⟩
  · rw [neverAccepted_iff]
    exact hblank 6
  · rw [neverCompiled_iff]
    rintro (h | h | h)
    · exact hblank 6 h
    · exact hblank 5 h
    · exact hblank 4 h

/-- No memory helps where no integer stands at the place of the last field. -/
example : (readResult (ascii "5 0 1 0 0 0 killed") ⟨9, 9, 9, 9, 9, 9, 9⟩).result = 0 := by
  decide +kernel

end Rojcpp.Judge
