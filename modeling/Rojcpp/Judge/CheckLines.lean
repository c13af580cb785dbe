import Rojcpp.Judge.Check
import Rojcpp.Lib.Padded

/-!
# What `noipstyle_check` compares

The lines of a text are its parts between maximal runs of CR and LF, without the blanks at their
ends and without the empty lines at the end of the text.  The loop of `noipstyle_check` ends with
the answer file, so whatever lines the user prints behind those of the answer are never read.  And
the reader takes the byte 255 for the end of the file; `userText` and `answerText` are the texts
without that byte which look to the reader like the ones it is given.
-/

namespace Rojcpp.Judge

open Rojcpp.Lib

/-! ### Lines -/

/-- The parts of a text between its maximal runs of CR and LF; `inRun` says that the byte in front
was one of these. -/
def splitRuns (inRun : Bool) : Str → List Str
  | [] => [[]]
  | c :: s =>
    if isEofn c = true then
      if inRun = true then splitRuns true s else [] :: splitRuns true s
    else (splitRuns false s).modifyHead fun l => c :: l

/-- The parts of a text, without trailing blanks. -/
def fragments (s : Str) : List Str := (splitRuns false s).map (trimEnd 32)

/-- The lines of a text. -/
def lines (s : Str) : List Str := trimEnd [] (fragments s)

/-- A list without its last line if that is blank. -/
def dropBlankEnd : List Str → List Str
  | [] => []
  | [j] => if j = [] then [] else [j]
  | j :: k :: js => j :: dropBlankEnd (k :: js)

/-- The lines of an answer that are compared: what stands behind its last line break only counts if
it is not blank. -/
def comparedLines (s : Str) : List Str := dropBlankEnd (fragments s)

/-- The compared lines of `as` are the first of `us`. -/
def Agrees (as us : List Str) : Prop :=
  ∀ i < (dropBlankEnd as).length, (dropBlankEnd as).getD i [] = us.getD i []

/-- The text has the lines of the answer, and more behind them. -/
def Extends (u s : Str) : Prop := comparedLines s <+: lines u ∧ comparedLines s ≠ lines u

theorem splitRuns_ne_nil (inRun : Bool) (s : Str) : splitRuns inRun s ≠ [] := by
  induction s generalizing inRun with
  | nil => simp [splitRuns]
  | cons c s ih =>
    rw [splitRuns]
    split
    · split
      · exact ih true
      · simp
    · rw [ne_eq, List.modifyHead_eq_nil_iff]
      exact ih false

/-- A run is skipped as a whole. -/
theorem splitRuns_true (s : Str) : splitRuns true s = splitRuns false (s.dropWhile isEofn) := by
  induction s with
  | nil => rfl
  | cons c s ih =>
    by_cases hc : isEofn c = true
    · rw [splitRuns, if_pos hc, if_pos rfl, ih, List.dropWhile_cons_of_pos hc]
    · rw [List.dropWhile_cons_of_neg hc, splitRuns, if_neg hc, splitRuns, if_neg hc]

theorem getD_dropBlankEnd (ls : List Str) (i : ℕ) :
    (dropBlankEnd ls).getD i [] = ls.getD i [] := by
  induction ls generalizing i with
  | nil => rfl
  | cons j js ih =>
    cases js with
    | nil =>
      rw [dropBlankEnd]
      split
      · rename_i hj
        rw [hj]
        cases i with
        | zero => rfl
        | succ i => rfl
      · rfl
    | cons k js =>
      cases i with
      | zero => rfl
      | succ i => exact ih i

theorem agrees_cons_iff {a : Str} {as us vs : List Str} (has : as ≠ [])
    (hus : ∀ i, us.getD (i + 1) [] = vs.getD i []) :
    Agrees (a :: as) us ↔ a = us.getD 0 [] ∧ Agrees as vs := by
  obtain ⟨k, ks, rfl⟩ := List.exists_cons_of_ne_nil has
  rw [Agrees, dropBlankEnd, List.length_cons, Nat.forall_lt_succ_left]
  simp only [List.getD_cons_zero, List.getD_cons_succ, hus]
  exact Iff.rfl

/-- **An answer and a text that agree on the compared lines** have the same lines, or the text has
more. -/
theorem compared_iff (u s : Str) :
    Agrees (fragments s) (fragments u) ↔ lines u = lines s ∨ Extends u s := by
  show (∀ i < (comparedLines s).length, (comparedLines s).getD i [] = (fragments u).getD i []) ↔ _
  rw [lines, lines, trimEnd_eq_iff, Extends, lines, properPrefix_trimEnd_iff]
  constructor
  · intro h
    by_cases hmore : ∃ i, (comparedLines s).length ≤ i ∧ (fragments u).getD i [] ≠ []
    · exact .inr ⟨h, hmore⟩
    · refine .inl fun i => ?_
      rw [← getD_dropBlankEnd (fragments s) i]
      by_cases hi : i < (comparedLines s).length
      · exact (h i hi).symm
      · have hle : (comparedLines s).length ≤ i := Nat.le_of_not_lt hi
        have hblank : (fragments u).getD i [] = [] := by
          by_contra hne
          exact hmore ⟨i, hle, hne⟩
        rw [hblank]
        exact (List.getD_eq_default _ _ hle).symm
  · intro h i hi
    cases h with
    | inl h => rw [comparedLines, getD_dropBlankEnd, h]
    | inr h => exact h.1 i hi

/-- Further lines are lines the answer does not have. -/
theorem lines_ne_of_extends {u s : Str} (h : Extends u s) : lines u ≠ lines s := by
  rw [Extends, lines, properPrefix_trimEnd_iff] at h
  obtain ⟨-, i, hi, hmore⟩ := h
  rw [lines, lines, ne_eq, trimEnd_eq_iff]
  intro hsame
  rw [hsame i, ← getD_dropBlankEnd (fragments s)] at hmore
  exact hmore (List.getD_eq_default _ _ hi)

/-! ### The byte 255 -/

/-- Whether a run of CR and LF comes next. -/
def nextIsEofn (s : Str) : Bool := s.head?.any isEofn

/-- The user's text as the reader sees it: the byte 255 ends a line, together with the run behind
it. -/
def userText : Str → Str
  | [] => []
  | c :: s =>
    if c = eofChar then
      if nextIsEofn s = true then 32 :: userText s else 32 :: 10 :: userText s
    else c :: userText s

/-- The answer as the reader sees it: the byte 255 ends it, unless a run comes next. -/
def answerText : Str → Str
  | [] => []
  | c :: s =>
    if c = eofChar then if nextIsEofn s = true then 32 :: answerText s else []
    else c :: answerText s

theorem userText_self {s : Str} (h : eofChar ∉ s) : userText s = s := by
  induction s with
  | nil => rfl
  | cons c s ih =>
    have hc : ¬ c = eofChar := fun hc => h (by simp [hc])
    rw [userText, if_neg hc, ih fun hmem => h (List.mem_cons_of_mem _ hmem)]

theorem answerText_self {s : Str} (h : eofChar ∉ s) : answerText s = s := by
  induction s with
  | nil => rfl
  | cons c s ih =>
    have hc : ¬ c = eofChar := fun hc => h (by simp [hc])
    rw [answerText, if_neg hc, ih fun hmem => h (List.mem_cons_of_mem _ hmem)]

/-- CR and LF are not the byte 255. -/
theorem isEofn_ne {c : UInt8} (h : isEofn c = true) : ¬ c = eofChar := by
  intro hc
  rw [hc] at h
  exact absurd h (by decide)

theorem dropWhile_userText (s : Str) :
    (userText s).dropWhile isEofn = userText (s.dropWhile isEofn) := by
  induction s with
  | nil => rfl
  | cons c s ih =>
    by_cases hc : isEofn c = true
    · rw [userText, if_neg (isEofn_ne hc), List.dropWhile_cons_of_pos hc,
        List.dropWhile_cons_of_pos hc, ih]
    · rw [List.dropWhile_cons_of_neg hc, userText]
      have hblank : ¬ isEofn 32 = true := by decide
      split
      · split
        · exact List.dropWhile_cons_of_neg hblank
        · exact List.dropWhile_cons_of_neg hblank
      · exact List.dropWhile_cons_of_neg hc

theorem dropWhile_answerText (s : Str) :
    (answerText s).dropWhile isEofn = answerText (s.dropWhile isEofn) := by
  induction s with
  | nil => rfl
  | cons c s ih =>
    by_cases hc : isEofn c = true
    · rw [answerText, if_neg (isEofn_ne hc), List.dropWhile_cons_of_pos hc,
        List.dropWhile_cons_of_pos hc, ih]
    · rw [List.dropWhile_cons_of_neg hc, answerText]
      have hblank : ¬ isEofn 32 = true := by decide
      split
      · split
        · exact List.dropWhile_cons_of_neg hblank
        · rfl
      · exact List.dropWhile_cons_of_neg hc

/-! ### Reading a line -/

/-- A line the reader returns: no CR and no LF is left in it. -/
theorem readLineLoop_plain (s : Str) : ∀ c ∈ (readLineLoop s).1, isEofn c = false := by
  induction s with
  | nil => exact fun c hc => absurd hc (by simp [readLineLoop])
  | cons d s ih =>
    intro c hc
    rw [readLineLoop] at hc
    split at hc
    · exact absurd hc (by simp)
    · rename_i hd
      simp only [Bool.or_eq_true, not_or, Bool.not_eq_true] at hd
      cases List.mem_cons.mp hc with
      | inl hc => rw [hc, hd.1]
      | inr hc => exact ih c hc

/-- Without CR and LF the trailing white space of a line is its trailing blanks; blanks added at
the end change nothing. -/
theorem delLineBackSpace_eq {l blanks : Str} (hl : ∀ c ∈ l, isEofn c = false)
    (hblanks : ∀ c ∈ blanks, c = 32) : trimEnd 32 (l ++ blanks) = delLineBackSpace l := by
  induction blanks using List.reverseRecOn with
  | nil =>
    rw [List.append_nil, trimEnd, List.rdropWhile, delLineBackSpace]
    have hsame : ∀ r : Str, (∀ c ∈ r, isEofn c = false) →
        (r.dropWhile fun c => c == 32) =
          r.dropWhile fun (c : UInt8) => c == '\n' || c == ' ' || c == '\r' := by
      intro r hr
      induction r with
      | nil => rfl
      | cons c r ih =>
        have hc := hr c (by simp)
        rw [isEofn, Bool.or_eq_false_iff] at hc
        have hstep : (c == '\n' || c == ' ' || c == '\r') = (c == 32) := by
          rw [hc.1, hc.2, Bool.or_false, Bool.false_or]
          rfl
        rw [List.dropWhile_cons, List.dropWhile_cons, hstep, ih fun d hd => hr d (by simp [hd])]
    rw [hsame l.reverse fun c hc => hl c (List.mem_reverse.mp hc)]
  | append_singleton blanks b ih =>
    have hb : b = 32 := hblanks b (by simp)
    rw [← List.append_assoc, trimEnd, List.rdropWhile_concat_pos _ _ _ (by simp [hb])]
    exact ih fun c hc => hblanks c (by simp [hc])

/-- What one line leaves of the user's text. -/
theorem splitRuns_userText (b : Str) : ∃ blanks more, (∀ c ∈ blanks, c = (32 : UInt8)) ∧
    splitRuns false (userText b) = ((readLineLoop b).1 ++ blanks) :: more ∧
    ((readLineLoop b).2.2 = [] ∧ more = [] ∨
      more = splitRuns true (userText (readLineLoop b).2.2)) := by
  have hnil : ∀ c ∈ ([] : Str), c = (32 : UInt8) := by simp
  have hblank : ¬ isEofn 32 = true := by decide
  have hbreak : isEofn 10 = true := by decide
  induction b with
  | nil => exact ⟨[], [], hnil, rfl, .inl ⟨rfl, rfl⟩⟩
  | cons c s ih =>
    by_cases hc : isEofn c = true
    · refine ⟨[], _, hnil, ?_, .inr rfl⟩
      rw [userText, if_neg (isEofn_ne hc), splitRuns, if_pos hc, if_neg (by simp), readLineLoop,
        if_pos (by simp [hc])]
      rfl
    · by_cases heof : c = eofChar
      · have hread : readLineLoop (c :: s) = ([], c, s) := by
          rw [readLineLoop, if_pos (by simp [heof])]
        refine ⟨[32], splitRuns true (userText s), by simp, ?_, .inr (by rw [hread])⟩
        rw [hread, userText, if_pos heof]
        cases s with
        | nil =>
          rw [if_neg (by simp [nextIsEofn]), splitRuns, if_neg hblank, splitRuns, if_pos hbreak,
            if_neg (by simp)]
          rfl
        | cons d s =>
          by_cases hd : isEofn d = true
          · rw [if_pos (show nextIsEofn (d :: s) = true from hd), splitRuns, if_neg hblank,
              userText, if_neg (isEofn_ne hd), splitRuns, if_pos hd, if_neg (by simp), splitRuns,
              if_pos hd, if_pos rfl]
            rfl
          · rw [if_neg (show ¬ nextIsEofn (d :: s) = true from hd), splitRuns, if_neg hblank,
              splitRuns, if_pos hbreak, if_neg (by simp)]
            rfl
      · obtain ⟨blanks, more, hblanks, hsplit, hmore⟩ := ih
        have hread : readLineLoop (c :: s) = (c :: (readLineLoop s).1, (readLineLoop s).2) := by
          rw [readLineLoop, if_neg (by simp [hc, heof])]
        refine ⟨blanks, more, hblanks, ?_, by rw [hread]; exact hmore⟩
        rw [hread, userText, if_neg heof, splitRuns, if_neg hc, hsplit]
        rfl

/-- The reader stops in front of no run. -/
theorem readEoln_eof (rest : Str) (cur : UInt8) :
    (Reader.readEoln ⟨rest, cur⟩).eof = (cur == eofChar && !nextIsEofn rest) := by
  cases rest with
  | nil =>
    show (cur == eofChar) = (cur == eofChar && true)
    rw [Bool.and_true]
  | cons c s =>
    by_cases hc : isEofn c = true
    · have hlast : ∀ d ∈ ((c :: s).takeWhile isEofn).getLast?, isEofn d = true := by
        intro d hd
        exact List.mem_takeWhile_imp (List.mem_of_getLast? hd)
      rw [show nextIsEofn (c :: s) = true from hc, Bool.not_true, Bool.and_false, Reader.eof,
        Reader.readEoln, beq_eq_false_iff_ne]
      rw [List.takeWhile_cons_of_pos hc] at hlast ⊢
      cases hget : (c :: s.takeWhile isEofn).getLast? with
      | none => exact absurd hget (by simp)
      | some d => exact isEofn_ne (hlast d hget)
    · rw [show nextIsEofn (c :: s) = false from Bool.eq_false_iff.mpr hc, Bool.not_false,
        Bool.and_true, Reader.eof, Reader.readEoln, List.takeWhile_cons_of_neg hc]
      rfl

/-- What one line leaves of the answer: nothing when the reader is at its end then. -/
theorem splitRuns_answerText (a : Str) (cur : UInt8) :
    ((Reader.mk a cur).readLine.2.eof = true ∧
        splitRuns false (answerText a) = [(readLineLoop a).1]) ∨
      ((Reader.mk a cur).readLine.2.eof = false ∧ a ≠ [] ∧
        ∃ blanks, (∀ c ∈ blanks, c = (32 : UInt8)) ∧
          splitRuns false (answerText a) = ((readLineLoop a).1 ++ blanks) ::
            splitRuns true (answerText (readLineLoop a).2.2)) := by
  have hnil : ∀ c ∈ ([] : Str), c = (32 : UInt8) := by simp
  have hblank : ¬ isEofn 32 = true := by decide
  rw [Reader.readLine, readEoln_eof]
  induction a with
  | nil => exact .inl ⟨rfl, rfl⟩
  | cons c s ih =>
    by_cases hc : isEofn c = true
    · have hread : readLineLoop (c :: s) = ([], c, s) := by
        rw [readLineLoop, if_pos (by simp [hc])]
      have hne : (c == eofChar) = false := beq_eq_false_iff_ne.mpr (isEofn_ne hc)
      refine .inr ⟨?_, by simp, [], hnil, ?_⟩
      · simp only [hread, hne, Bool.false_and]
      · rw [hread, answerText, if_neg (isEofn_ne hc), splitRuns, if_pos hc, if_neg (by simp)]
        rfl
    · by_cases heof : c = eofChar
      · have hread : readLineLoop (c :: s) = ([], c, s) := by
          rw [readLineLoop, if_pos (by simp [heof])]
        have hcur : (c == eofChar) = true := beq_iff_eq.mpr heof
        simp only [hread, hcur, Bool.true_and]
        by_cases hnext : nextIsEofn s = true
        · refine .inr ⟨by rw [hnext]; rfl, by simp, [32], by simp, ?_⟩
          rw [answerText, if_pos heof, if_pos hnext, splitRuns, if_neg hblank]
          cases s with
          | nil => exact absurd hnext (by simp [nextIsEofn])
          | cons d s =>
            have hd : isEofn d = true := hnext
            rw [answerText, if_neg (isEofn_ne hd), splitRuns, if_pos hd, if_neg (by simp),
              splitRuns, if_pos hd, if_pos rfl]
            rfl
        · refine .inl ⟨by rw [Bool.eq_false_iff.mpr hnext]; rfl, ?_⟩
          rw [answerText, if_pos heof, if_neg hnext]
          rfl
      · have hread : readLineLoop (c :: s) = (c :: (readLineLoop s).1, (readLineLoop s).2) := by
          rw [readLineLoop, if_neg (by simp [hc, heof])]
        rw [hread, answerText, if_neg heof, splitRuns, if_neg hc]
        cases ih with
        | inl ih =>
          refine .inl ⟨ih.1, ?_⟩
          rw [ih.2]
          rfl
        | inr ih =>
          obtain ⟨hne, -, blanks, hblanks, hsplit⟩ := ih
          refine .inr ⟨hne, by simp, blanks, hblanks, ?_⟩
          rw [hsplit]
          rfl

/-! ### The loop -/

theorem fragments_ne_nil (s : Str) : fragments s ≠ [] := by
  rw [fragments, ne_eq, List.map_eq_nil_iff]
  exact splitRuns_ne_nil false s

/-- One line of the user: the first of his lines, and the reader goes on with the others. -/
theorem readLine_user (b : Str) (cur : UInt8) :
    (fragments (userText b)).getD 0 [] = delLineBackSpace (Reader.mk b cur).readLine.1 ∧
      ∀ i, (fragments (userText b)).getD (i + 1) [] =
        (fragments (userText (Reader.mk b cur).readLine.2.rest)).getD i [] := by
  obtain ⟨blanks, more, hblanks, hsplit, hmore⟩ := splitRuns_userText b
  have htrim := delLineBackSpace_eq (readLineLoop_plain b) hblanks
  rw [fragments, hsplit, List.map_cons, List.getD_cons_zero, htrim]
  refine ⟨rfl, fun i => ?_⟩
  rw [List.getD_cons_succ]
  show _ = (fragments (userText ((readLineLoop b).2.2.dropWhile isEofn))).getD i []
  cases hmore with
  | inl hmore =>
    rw [hmore.1, hmore.2]
    cases i with
    | zero => rfl
    | succ i => rfl
  | inr hmore => rw [hmore, splitRuns_true, dropWhile_userText, fragments]

/-- One line of the answer: its last compared one, or the first of them. -/
theorem readLine_answer (a : Str) (cur : UInt8) :
    ((Reader.mk a cur).readLine.2.eof = true ∧
        fragments (answerText a) = [delLineBackSpace (Reader.mk a cur).readLine.1]) ∨
      ((Reader.mk a cur).readLine.2.eof = false ∧ a ≠ [] ∧
        fragments (answerText a) = delLineBackSpace (Reader.mk a cur).readLine.1 ::
          fragments (answerText (Reader.mk a cur).readLine.2.rest)) := by
  have hplain := readLineLoop_plain a
  cases splitRuns_answerText a cur with
  | inl h =>
    have hnone : ∀ c ∈ ([] : Str), c = 32 := by simp
    have htrim := delLineBackSpace_eq hplain hnone
    rw [List.append_nil] at htrim
    refine .inl ⟨h.1, ?_⟩
    rw [fragments, h.2, List.map_singleton, htrim]
    rfl
  | inr h =>
    obtain ⟨heof, hne, blanks, hblanks, hsplit⟩ := h
    refine .inr ⟨heof, hne, ?_⟩
    rw [fragments, hsplit, List.map_cons, delLineBackSpace_eq hplain hblanks, splitRuns_true,
      dropWhile_answerText]
    rfl

/-- **What the loop finds out**: whether the user's lines are the compared lines of the answer, as
far as these go. -/
theorem noipLoop_iff (fuel : ℕ) : ∀ (a b : Str) (c d : UInt8), c ≠ eofChar → a.length < fuel →
    (noipLoop fuel ⟨a, c⟩ ⟨b, d⟩ = true ↔
      Agrees (fragments (answerText a)) (fragments (userText b))) := by
  induction fuel with
  | zero => exact fun a b c d _ hfuel => absurd hfuel (Nat.not_lt_zero _)
  | succ fuel ih =>
    intro a b c d hc hfuel
    have hgoes : ¬ (Reader.mk a c).eof = true := by
      rw [Reader.eof, beq_iff_eq]
      exact hc
    obtain ⟨hfirst, hlater⟩ := readLine_user b d
    rw [noipLoop, if_neg hgoes]
    simp only
    cases readLine_answer a c with
    | inl h =>
      -- the reader is at the end of the answer: the line only counts if it is not blank
      obtain ⟨heof, hlines⟩ := h
      rw [heof, Bool.and_true, Agrees, hlines, dropBlankEnd, noipLoop_eof _ _ _ heof]
      by_cases hblank : delLineBackSpace (Reader.mk a c).readLine.1 = []
      · rw [if_pos (List.isEmpty_iff.mpr hblank), if_pos hblank]
        simp
      · rw [if_neg (by rw [List.isEmpty_iff]; exact hblank), if_neg hblank]
        simp only [List.length_singleton, Nat.lt_one_iff, forall_eq, List.getD_cons_zero, hfirst,
          ne_eq, ite_not, ite_eq_left_iff, Bool.false_eq_true, imp_false, not_not]
    | inr h =>
      obtain ⟨heof, hne, hlines⟩ := h
      have hcur : (Reader.mk a c).readLine.2.cur ≠ eofChar := by
        intro hcur
        rw [Reader.eof, hcur] at heof
        exact absurd heof (by simp)
      have hshort : (Reader.mk a c).readLine.2.rest.length < fuel := by
        have hlt : (Reader.mk a c).readLine.2.rest.length < a.length :=
          readLine_length ⟨a, c⟩ hne
        omega
      have hrest := ih _ (Reader.mk b d).readLine.2.rest _ (Reader.mk b d).readLine.2.cur hcur
        hshort
      rw [heof, Bool.and_false, if_neg (by simp), hlines,
        agrees_cons_iff (fragments_ne_nil _) hlater, hfirst]
      by_cases hsame : delLineBackSpace (Reader.mk a c).readLine.1 =
          delLineBackSpace (Reader.mk b d).readLine.1
      · rw [if_neg (not_not_intro hsame), and_iff_right hsame]
        exact hrest
      · rw [if_pos hsame]
        exact iff_of_false (by simp) fun hall => hsame hall.1

/-- The reader sees the lines of the answer in the text, or more behind them. -/
def Seen (u s : Str) : Prop :=
  lines (userText u) = lines (answerText s) ∨ Extends (userText u) (answerText s)

/-- **`noipstyle_check` accepts** the texts in which it sees the lines of the answer. -/
theorem noipstyleCheck_iff (u s : Str) :
    noipstyleCheck (some u) (some s) = true ↔ Seen u s := by
  rw [Seen, ← compared_iff]
  exact noipLoop_iff (s.length + 2) s u 254 254 (by decide) (by omega)

end Rojcpp.Judge
