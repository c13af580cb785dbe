import Rojcpp.Judge.CheckLines

/-!
# When `noipstyle_check` is right

`noipstyle_check` should say whether two texts have the same lines.  It does not when the user's
text has the answer's lines and more behind them, for these are never read.

The other cause is the byte 255, which the reader takes for the end of the file.  Line by line: in
the user's text the byte ends a line, in the answer it ends the text unless it stands at the end of
a line.  So texts with the same lines look different to the reader where blanks stand behind the
byte in one of them only: there it sees one more line of the user.
-/

namespace Rojcpp.Judge

open Rojcpp.Lib

/-! ### Line by line -/

/-- The part of a line in front of the byte 255. -/
def upToEof (l : Str) : Str := l.takeWhile fun c => c != eofChar

/-- The lines that the reader sees in one line of the user: the byte 255 ends one, and at the end of
the line nothing stands behind it. -/
def userParts : Str → List Str
  | [] => [[]]
  | c :: l =>
    if c = eofChar then if l = [] then [[]] else [] :: userParts l
    else (userParts l).modifyHead fun p => c :: p

/-- The lines that the reader sees in those of the user. -/
def userLines (ls : List Str) : List Str := ls.flatMap fun l => (userParts l).map (trimEnd 32)

/-- The lines that the reader sees in those of the answer: the last is the one in which the byte 255
stands elsewhere than at the end. -/
def answerLines : List Str → List Str
  | [] => []
  | [l] => [trimEnd 32 (upToEof l)]
  | l :: k :: ls =>
    if l.length ≤ (upToEof l).length + 1 then trimEnd 32 (upToEof l) :: answerLines (k :: ls)
    else [trimEnd 32 (upToEof l)]

theorem upToEof_self {p : Str} (h : eofChar ∉ p) : upToEof p = p := by
  refine List.takeWhile_eq_self_iff.mpr fun c hc => ?_
  rw [bne_iff_ne]
  exact fun heq => h (heq ▸ hc)

theorem upToEof_append {p : Str} (h : eofChar ∉ p) (r : Str) :
    upToEof (p ++ eofChar :: r) = p := by
  have hp : p.takeWhile (fun c => c != eofChar) = p := upToEof_self h
  rw [upToEof, List.takeWhile_append_of_pos (List.takeWhile_eq_self_iff.mp hp),
    List.takeWhile_cons_of_neg (by simp), List.append_nil]

theorem userParts_self {p : Str} (h : eofChar ∉ p) : userParts p = [p] := by
  induction p with
  | nil => rfl
  | cons c p ih =>
    rw [List.mem_cons, not_or] at h
    rw [userParts, if_neg fun hc => h.1 hc.symm, ih h.2]
    rfl

theorem userParts_append {p : Str} (h : eofChar ∉ p) (r : Str) :
    userParts (p ++ eofChar :: r) = p :: if r = [] then [] else userParts r := by
  induction p with
  | nil =>
    rw [List.nil_append, userParts, if_pos rfl]
    split <;> rfl
  | cons c p ih =>
    rw [List.mem_cons, not_or] at h
    rw [List.cons_append, userParts, if_neg fun hc => h.1 hc.symm, ih h.2]
    rfl

theorem userParts_ne_nil (l : Str) : userParts l ≠ [] := by
  induction l with
  | nil => simp [userParts]
  | cons c l ih =>
    rw [userParts]
    split
    · split <;> simp
    · rw [ne_eq, List.modifyHead_eq_nil_iff]
      exact ih

theorem map_trimEnd_modifyHead (c : UInt8) (ls : List Str) :
    (ls.modifyHead fun l => c :: l).map (trimEnd 32) =
      (ls.map (trimEnd 32)).modifyHead fun l => trimEnd 32 (c :: l) := by
  cases ls with
  | nil => rfl
  | cons l ls =>
    rw [List.modifyHead_cons, List.map_cons, List.map_cons, List.modifyHead_cons,
      trimEnd_cons_trimEnd]

theorem userLines_cons (l : Str) (ls : List Str) :
    userLines (l :: ls) = (userParts l).map (trimEnd 32) ++ userLines ls := rfl

theorem userLines_modifyHead {c : UInt8} (hc : c ≠ eofChar) (ls : List Str) :
    userLines (ls.modifyHead fun l => c :: l) =
      (userLines ls).modifyHead fun l => trimEnd 32 (c :: l) := by
  cases ls with
  | nil => rfl
  | cons l ls =>
    rw [List.modifyHead_cons, userLines_cons, userLines_cons, userParts, if_neg hc,
      map_trimEnd_modifyHead]
    cases hp : userParts l with
    | nil => exact absurd hp (userParts_ne_nil l)
    | cons p ps => rfl

theorem upToEof_cons {c : UInt8} (hc : c ≠ eofChar) (l : Str) :
    upToEof (c :: l) = c :: upToEof l :=
  List.takeWhile_cons_of_pos (bne_iff_ne.mpr hc)

theorem upToEof_eof (l : Str) : upToEof (eofChar :: l) = [] := upToEof_append (p := []) nofun l

theorem answerLines_modifyHead {c : UInt8} (hc : c ≠ eofChar) (ls : List Str) :
    answerLines (ls.modifyHead fun l => c :: l) =
      (answerLines ls).modifyHead fun l => trimEnd 32 (c :: l) := by
  match ls with
  | [] => rfl
  | [l] =>
    rw [List.modifyHead_cons, answerLines, answerLines, List.modifyHead_cons, trimEnd_cons_trimEnd,
      upToEof_cons hc]
  | l :: k :: ls =>
    rw [List.modifyHead_cons, answerLines, answerLines, upToEof_cons hc, List.length_cons,
      List.length_cons]
    by_cases hshort : l.length ≤ (upToEof l).length + 1
    · rw [if_pos hshort, if_pos (Nat.succ_le_succ hshort), List.modifyHead_cons,
        trimEnd_cons_trimEnd]
    · rw [if_neg hshort, if_neg fun h => hshort (Nat.le_of_succ_le_succ h), List.modifyHead_cons,
        trimEnd_cons_trimEnd]

theorem answerLines_nil_cons {ls : List Str} (h : ls ≠ []) :
    answerLines ([] :: ls) = [] :: answerLines ls := by
  cases ls with
  | nil => exact absurd rfl h
  | cons k ls => rfl

theorem exists_splitRuns {d : UInt8} (hd : ¬ isEofn d = true) (s : Str) :
    ∃ k ls, splitRuns false (d :: s) = (d :: k) :: ls := by
  obtain ⟨k, ls, hls⟩ := List.exists_cons_of_ne_nil (splitRuns_ne_nil false s)
  exact ⟨k, ls, by rw [splitRuns, if_neg hd, hls, List.modifyHead_cons]⟩

/-- **The answer, line by line.** -/
theorem splitRuns_answerLines (s : Str) (inRun : Bool) :
    (splitRuns inRun (answerText s)).map (trimEnd 32) = answerLines (splitRuns inRun s) := by
  induction s generalizing inRun with
  | nil => rfl
  | cons c s ih =>
    by_cases hc : isEofn c = true
    · rw [answerText, if_neg (isEofn_ne hc), splitRuns, if_pos hc, splitRuns, if_pos hc]
      cases inRun with
      | true => exact ih true
      | false =>
        show _ = answerLines ([] :: splitRuns true s)
        rw [answerLines_nil_cons (splitRuns_ne_nil true s), ← ih true]
        rfl
    · by_cases heof : c = eofChar
      · rw [splitRuns, if_neg hc, answerText, if_pos heof, heof]
        cases s with
        | nil => rfl
        | cons d s =>
          by_cases hd : isEofn d = true
          · -- a run comes next: the byte stands at the end of the line
            have hrest := ih true
            rw [answerText, if_neg (isEofn_ne hd), splitRuns, if_pos hd, if_pos rfl, splitRuns,
              if_pos hd, if_pos rfl] at hrest
            rw [if_pos (show nextIsEofn (d :: s) = true from hd), splitRuns,
              if_neg (show ¬ isEofn 32 = true by decide), answerText, if_neg (isEofn_ne hd),
              splitRuns, if_pos hd, if_neg (by decide), splitRuns, if_pos hd, if_neg (by decide)]
            rw [List.modifyHead_cons, List.map_cons, hrest, List.modifyHead_cons]
            cases hls : splitRuns true s with
            | nil => exact absurd hls (splitRuns_ne_nil true s)
            | cons k ls => rfl
          · obtain ⟨k, ls, hls⟩ := exists_splitRuns hd s
            rw [if_neg (show ¬ nextIsEofn (d :: s) = true from hd), hls, List.modifyHead_cons]
            cases ls with
            | nil =>
              rw [answerLines, upToEof_eof]
              rfl
            | cons j ls =>
              rw [answerLines, upToEof_eof, if_neg (by simp)]
              rfl
      · rw [answerText, if_neg heof, splitRuns, if_neg hc, splitRuns, if_neg hc,
          map_trimEnd_modifyHead, ih false, answerLines_modifyHead heof]

theorem getD_modifyHead {f : Str → Str} {us vs : List Str} (hu : us ≠ []) (hv : vs ≠ [])
    (h : ∀ i, us.getD i [] = vs.getD i []) (i : ℕ) :
    (us.modifyHead f).getD i [] = (vs.modifyHead f).getD i [] := by
  obtain ⟨a, us, rfl⟩ := List.exists_cons_of_ne_nil hu
  obtain ⟨b, vs, rfl⟩ := List.exists_cons_of_ne_nil hv
  cases i with
  | zero => exact congrArg f (h 0)
  | succ i => exact h (i + 1)

theorem userLines_ne_nil {ls : List Str} (h : ls ≠ []) : userLines ls ≠ [] := by
  obtain ⟨l, ls, rfl⟩ := List.exists_cons_of_ne_nil h
  obtain ⟨p, ps, hp⟩ := List.exists_cons_of_ne_nil (userParts_ne_nil l)
  rw [userLines_cons, hp]
  exact List.cons_ne_nil _ _

theorem getD_cons {l : Str} {us vs : List Str} (h : ∀ i, us.getD i [] = vs.getD i []) (i : ℕ) :
    (l :: us).getD i [] = (l :: vs).getD i [] := by
  cases i with
  | zero => rfl
  | succ i => exact h i

/-- **The user's text, line by line.** -/
theorem splitRuns_userLines (u : Str) (inRun : Bool) (i : ℕ) :
    ((splitRuns inRun (userText u)).map (trimEnd 32)).getD i [] =
      (userLines (splitRuns inRun u)).getD i [] := by
  induction u generalizing inRun i with
  | nil => rfl
  | cons c s ih =>
    by_cases hc : isEofn c = true
    · rw [userText, if_neg (isEofn_ne hc), splitRuns, if_pos hc, splitRuns, if_pos hc]
      cases inRun with
      | true => exact ih true i
      | false => exact getD_cons (ih true) i
    · by_cases heof : c = eofChar
      · rw [splitRuns, if_neg hc, userText, if_pos heof, heof]
        have hblank : ¬ isEofn 32 = true := by decide
        have hbreak : isEofn 10 = true := by decide
        cases s with
        | nil =>
          cases i with
          | zero => rfl
          | succ i =>
            cases i with
            | zero => rfl
            | succ i => rfl
        | cons d s =>
          by_cases hd : isEofn d = true
          · -- a run comes next: it ends the line, as the byte does
            have hrest := ih true
            rw [userText, if_neg (isEofn_ne hd), splitRuns, if_pos hd, if_pos rfl, splitRuns,
              if_pos hd, if_pos rfl] at hrest
            rw [if_pos (show nextIsEofn (d :: s) = true from hd), splitRuns, if_neg hblank,
              userText, if_neg (isEofn_ne hd), splitRuns, if_pos hd, if_neg (by decide), splitRuns,
              if_pos hd, if_neg (by decide)]
            exact getD_cons hrest i
          · rw [if_neg (show ¬ nextIsEofn (d :: s) = true from hd), splitRuns, if_neg hblank,
              splitRuns, if_pos hbreak, if_neg (by decide), splitRuns_true, dropWhile_userText,
              List.dropWhile_cons_of_neg hd]
            have hrest := ih false
            obtain ⟨k, ls, hls⟩ := exists_splitRuns hd s
            rw [hls] at hrest
            rw [hls, List.modifyHead_cons, List.modifyHead_cons, userLines_cons, userParts,
              if_pos rfl, if_neg (List.cons_ne_nil _ _)]
            exact getD_cons hrest i
      · rw [userText, if_neg heof, splitRuns, if_neg hc, splitRuns, if_neg hc,
          map_trimEnd_modifyHead, userLines_modifyHead heof]
        refine getD_modifyHead ?_ (userLines_ne_nil (splitRuns_ne_nil false s)) (ih false) i
        rw [ne_eq, List.map_eq_nil_iff]
        exact splitRuns_ne_nil false _

/-! ### Texts with the same lines -/

/-- Two lists of lines are the same, but for blanks at the ends of the lines and blank lines at the
end. -/
def SameRows (ms ls : List Str) : Prop :=
  ∀ i, trimEnd 32 (ms.getD i []) = trimEnd 32 (ls.getD i [])

/-- In one list a line ends with the byte 255, in the other blanks stand behind that byte, and a
line further down is not blank in what the reader sees of the first. -/
def ShiftedRows (ms ls : List Str) : Prop :=
  ∃ i j, i < j ∧ (ls.getD i []).getLast? = some eofChar ∧
    (ms.getD i []).getLast? ≠ some eofChar ∧ (answerLines ls).getD j [] ≠ []

theorem getD_fragments (s : Str) (i : ℕ) :
    (fragments s).getD i [] = trimEnd 32 ((splitRuns false s).getD i []) :=
  List.getD_map _ [] (trimEnd 32)

theorem lines_eq_iff (u s : Str) :
    lines u = lines s ↔ SameRows (splitRuns false u) (splitRuns false s) := by
  rw [lines, lines, trimEnd_eq_iff]
  simp only [getD_fragments]
  exact Iff.rfl

/-- Two lines that differ in the blanks at their ends. -/
theorem line_cases {m l : Str} (h : trimEnd 32 m = trimEnd 32 l) :
    eofChar ∉ l ∧ eofChar ∉ m ∨ ∃ p r q, eofChar ∉ p ∧ l = p ++ eofChar :: r ∧
      m = p ++ eofChar :: q ∧ trimEnd 32 q = trimEnd 32 r := by
  obtain ⟨a, ha⟩ := exists_trimEnd_append 32 l
  obtain ⟨b, hb⟩ := exists_trimEnd_append 32 m
  rw [h] at hb
  have hblanks : ∀ n, eofChar ∉ List.replicate n (32 : UInt8) := fun n hmem =>
    absurd (List.eq_of_mem_replicate hmem) (by decide)
  by_cases hmem : eofChar ∈ trimEnd 32 l
  · obtain ⟨p, r, ht, hp⟩ := List.eq_append_cons_of_mem hmem
    refine .inr ⟨p, r ++ List.replicate a 32, r ++ List.replicate b 32, hp, ?_, ?_, ?_⟩
    · rw [ha, ht, List.append_assoc, List.cons_append]
    · rw [hb, ht, List.append_assoc, List.cons_append]
    · rw [trimEnd_append_replicate, trimEnd_append_replicate]
  · refine .inl ⟨?_, ?_⟩
    · rw [ha, List.mem_append, not_or]
      exact ⟨hmem, hblanks a⟩
    · rw [hb, List.mem_append, not_or]
      exact ⟨hmem, hblanks b⟩

/-- Blanks are not the byte 255. -/
theorem not_mem_of_blank {q : Str} (h : trimEnd 32 q = []) : eofChar ∉ q := by
  obtain ⟨n, hn⟩ := exists_trimEnd_append 32 q
  rw [h, List.nil_append] at hn
  rw [hn]
  exact fun hmem => absurd (List.eq_of_mem_replicate hmem) (by decide)

theorem getLast?_of_blank {p q : Str} (hq : trimEnd 32 q = []) (hne : q ≠ []) :
    (p ++ eofChar :: q).getLast? ≠ some eofChar := by
  rw [List.getLast?_append_of_ne_nil _ (List.cons_ne_nil _ _), List.getLast?_cons]
  intro hlast
  cases hget : q.getLast? with
  | none => exact hne (List.getLast?_eq_none_iff.mp hget)
  | some c =>
    rw [hget] at hlast
    cases hlast
    exact not_mem_of_blank hq (List.mem_of_getLast? hget)

theorem answerLines_self {l : Str} (h : eofChar ∉ l) (ls : List Str) :
    answerLines (l :: ls) = trimEnd 32 l :: answerLines ls := by
  cases ls with
  | nil => rw [answerLines, answerLines, upToEof_self h]
  | cons k ls => rw [answerLines, upToEof_self h, if_pos (Nat.le_succ _)]

theorem answerLines_end {p : Str} (h : eofChar ∉ p) (ls : List Str) :
    answerLines ((p ++ [eofChar]) :: ls) = trimEnd 32 p :: answerLines ls := by
  cases ls with
  | nil => rw [answerLines, answerLines, upToEof_append h]
  | cons k ls => rw [answerLines, upToEof_append h, if_pos (by simp)]

theorem answerLines_inside {p r : Str} (h : eofChar ∉ p) (hr : r ≠ []) (ls : List Str) :
    answerLines ((p ++ eofChar :: r) :: ls) = [trimEnd 32 p] := by
  cases ls with
  | nil => rw [answerLines, upToEof_append h]
  | cons k ls =>
    have hpos := List.length_pos_iff.mpr hr
    rw [answerLines, upToEof_append h, if_neg]
    rw [List.length_append, List.length_cons]
    omega

theorem userLines_self {l : Str} (h : eofChar ∉ l) (ls : List Str) :
    userLines (l :: ls) = trimEnd 32 l :: userLines ls := by
  rw [userLines_cons, userParts_self h]
  rfl

theorem userLines_append {p : Str} (h : eofChar ∉ p) (q : Str) (ls : List Str) :
    userLines ((p ++ eofChar :: q) :: ls) =
      trimEnd 32 p :: ((if q = [] then [] else userParts q).map (trimEnd 32) ++ userLines ls) := by
  rw [userLines_cons, userParts_append h]
  rfl

theorem userLines_blank {p q : Str} (h : eofChar ∉ p) (hq : trimEnd 32 q = []) (hne : q ≠ [])
    (ls : List Str) :
    userLines ((p ++ eofChar :: q) :: ls) = trimEnd 32 p :: [] :: userLines ls := by
  rw [userLines_append h, if_neg hne, userParts_self (not_mem_of_blank hq), List.map_singleton, hq]
  rfl

theorem Agrees.nil (us : List Str) : Agrees [] us := fun i hi => absurd hi (Nat.not_lt_zero i)

theorem agrees_cons {a : Str} {as us : List Str} :
    Agrees (a :: as) (a :: us) ↔ Agrees as us := by
  cases as with
  | nil =>
    refine iff_of_true ?_ (Agrees.nil us)
    intro i hi
    rw [dropBlankEnd] at hi ⊢
    split at hi
    · exact absurd hi (Nat.not_lt_zero i)
    · rename_i ha
      rw [if_neg ha]
      cases i with
      | zero => rfl
      | succ i => exact absurd (Nat.lt_of_succ_lt_succ hi) (Nat.not_lt_zero i)
  | cons k ks =>
    have htail : ∀ i, (a :: us).getD (i + 1) [] = us.getD i [] := fun _ => rfl
    rw [agrees_cons_iff (List.cons_ne_nil k ks) htail]
    exact and_iff_right rfl

theorem agrees_congr {as us vs : List Str} (h : ∀ i, us.getD i [] = vs.getD i []) :
    Agrees as us ↔ Agrees as vs := by
  rw [Agrees, Agrees]
  simp only [h]

theorem length_dropBlankEnd (ls : List Str) : (dropBlankEnd ls).length ≤ ls.length := by
  induction ls with
  | nil => exact le_rfl
  | cons j js ih =>
    cases js with
    | nil =>
      rw [dropBlankEnd]
      split
      · exact Nat.zero_le _
      · exact le_rfl
    | cons k js => exact Nat.succ_le_succ ih

/-- **A blank line too many**: then the compared lines are all blank. -/
theorem agrees_shift {as us : List Str}
    (h : ∀ n < as.length, (∀ j < n, as.getD j [] = []) → ∀ j < n, us.getD j [] = []) :
    Agrees as ([] :: us) ↔ ∀ j, as.getD j [] = [] := by
  have hlen := length_dropBlankEnd as
  constructor
  · intro hagrees
    have hall : ∀ n, ∀ j < n, as.getD j [] = [] := by
      intro n
      induction n with
      | zero => exact fun j hj => absurd hj (Nat.not_lt_zero j)
      | succ n ih =>
        intro j hj
        obtain hlt | heq := Nat.lt_succ_iff_lt_or_eq.mp hj
        · exact ih j hlt
        · rw [heq, ← getD_dropBlankEnd]
          by_cases hn : n < (dropBlankEnd as).length
          · rw [hagrees n hn]
            cases n with
            | zero => rfl
            | succ n => exact h (n + 1) (Nat.lt_of_lt_of_le hn hlen) ih n (Nat.lt_succ_self n)
          · exact List.getD_eq_default _ _ (Nat.le_of_not_lt hn)
    exact fun j => hall (j + 1) j (Nat.lt_succ_self j)
  · intro hall i hi
    rw [getD_dropBlankEnd, hall i]
    cases i with
    | zero => rfl
    | succ i =>
      exact (h (i + 1) (Nat.lt_of_lt_of_le hi hlen) (fun j _ => hall j) i
        (Nat.lt_succ_self i)).symm

theorem SameRows.tail {m l : Str} {ms ls : List Str} (h : SameRows (m :: ms) (l :: ls)) :
    SameRows ms ls := fun i => h (i + 1)

/-- A list of lines goes on with blank ones. -/
theorem exists_row (ms : List Str) : ∃ k ks, (∀ i, ms.getD i [] = (k :: ks : List Str).getD i []) ∧
    ∀ i, (userLines ms).getD i [] = (userLines (k :: ks)).getD i [] := by
  cases ms with
  | nil =>
    refine ⟨[], [], fun i => ?_, fun i => ?_⟩
    · cases i <;> rfl
    · cases i <;> rfl
  | cons m ms => exact ⟨m, ms, fun _ => rfl, fun _ => rfl⟩

/-- While the answer's lines are blank, so are the user's. -/
theorem userLines_blank_below (ls ms : List Str) (h : SameRows ms ls) (n : ℕ)
    (hn : n < (answerLines ls).length) (hblank : ∀ j < n, (answerLines ls).getD j [] = []) :
    ∀ j < n, (userLines ms).getD j [] = [] := by
  induction ls generalizing ms n with
  | nil => exact absurd hn (Nat.not_lt_zero n)
  | cons l ls ih =>
    intro j hj
    obtain ⟨m, ks, hrows, huser⟩ := exists_row ms
    rw [huser]
    have hsame : SameRows (m :: ks) (l :: ls) := fun i => by rw [← hrows, h i]
    have hfirst : trimEnd 32 m = trimEnd 32 l := hsame 0
    have hhead := hblank 0 (Nat.zero_lt_of_lt hj)
    obtain ⟨n, rfl⟩ := Nat.exists_eq_succ_of_ne_zero (Nat.ne_zero_of_lt hj)
    obtain ⟨hl, hm⟩ | ⟨p, r, q, hp, rfl, rfl, hqr⟩ := line_cases hfirst
    · rw [answerLines_self hl] at hn hblank hhead
      rw [userLines_self hm, hfirst]
      cases j with
      | zero => exact hhead
      | succ j =>
        exact ih ks hsame.tail n (Nat.lt_of_succ_lt_succ hn)
          (fun i hi => hblank (i + 1) (Nat.succ_lt_succ hi)) j (Nat.lt_of_succ_lt_succ hj)
    · by_cases hr : r = []
      · rw [hr] at hqr hn hblank hhead
        rw [answerLines_end hp] at hn hblank hhead
        have hrest := ih ks hsame.tail n (Nat.lt_of_succ_lt_succ hn)
          fun i hi => hblank (i + 1) (Nat.succ_lt_succ hi)
        by_cases hq : q = []
        · rw [hq, userLines_append hp, if_pos rfl]
          cases j with
          | zero => exact hhead
          | succ j => exact hrest j (Nat.lt_of_succ_lt_succ hj)
        · rw [userLines_blank hp hqr hq]
          cases j with
          | zero => exact hhead
          | succ j =>
            cases j with
            | zero => rfl
            | succ j => exact hrest j (by omega)
      · rw [answerLines_inside hp hr, List.length_singleton] at hn
        exact absurd hn (by omega)

/-- A first line that is not shifted. -/
theorem shiftedRows_cons {m l a : Str} {ms ls : List Str}
    (ha : answerLines (l :: ls) = a :: answerLines ls)
    (hends : l.getLast? = some eofChar → m.getLast? = some eofChar) :
    ShiftedRows (m :: ms) (l :: ls) ↔ ShiftedRows ms ls := by
  rw [ShiftedRows, ShiftedRows, ha]
  constructor
  · intro h
    obtain ⟨i, j, hij, hl, hm, hj⟩ := h
    obtain ⟨j, rfl⟩ := Nat.exists_eq_succ_of_ne_zero (Nat.ne_zero_of_lt hij)
    cases i with
    | zero => exact absurd (hends hl) hm
    | succ i => exact ⟨i, j, Nat.lt_of_succ_lt_succ hij, hl, hm, hj⟩
  · intro h
    obtain ⟨i, j, hij, hl, hm, hj⟩ := h
    exact ⟨i + 1, j + 1, Nat.succ_lt_succ hij, hl, hm, hj⟩

/-- A first line that is shifted. -/
theorem shiftedRows_first {m l a : Str} {ms ls : List Str}
    (ha : answerLines (l :: ls) = a :: answerLines ls) (hl : l.getLast? = some eofChar)
    (hm : m.getLast? ≠ some eofChar) :
    ShiftedRows (m :: ms) (l :: ls) ↔ ∃ j, (answerLines ls).getD j [] ≠ [] := by
  rw [ShiftedRows, ha]
  constructor
  · intro h
    obtain ⟨i, j, hij, -, -, hj⟩ := h
    obtain ⟨j, rfl⟩ := Nat.exists_eq_succ_of_ne_zero (Nat.ne_zero_of_lt hij)
    exact ⟨j, hj⟩
  · intro h
    obtain ⟨j, hj⟩ := h
    exact ⟨0, j + 1, Nat.succ_pos j, hl, hm, hj⟩

/-- Behind the last line the reader sees nothing is shifted. -/
theorem not_shiftedRows {a : Str} {ms ls : List Str} (ha : answerLines ls = [a]) :
    ¬ ShiftedRows ms ls := by
  intro h
  rw [ShiftedRows, ha] at h
  obtain ⟨i, j, hij, -, -, hj⟩ := h
  obtain ⟨j, rfl⟩ := Nat.exists_eq_succ_of_ne_zero (Nat.ne_zero_of_lt hij)
  exact hj rfl

/-- **Texts with the same lines** are found to agree, unless the user's lines are shifted. -/
theorem agrees_iff (ls ms : List Str) (h : SameRows ms ls) :
    Agrees (answerLines ls) (userLines ms) ↔ ¬ ShiftedRows ms ls := by
  induction ls generalizing ms with
  | nil =>
    refine iff_of_true (Agrees.nil _) fun hshift => ?_
    obtain ⟨i, j, -, -, -, hj⟩ := hshift
    exact hj rfl
  | cons l ls ih =>
    obtain ⟨m, ks, hrows, huser⟩ := exists_row ms
    have hsame : SameRows (m :: ks) (l :: ls) := fun i => by rw [← hrows, h i]
    have hshifted : ShiftedRows ms (l :: ls) ↔ ShiftedRows (m :: ks) (l :: ls) := by
      rw [ShiftedRows, ShiftedRows]
      simp only [hrows]
    have hfirst : trimEnd 32 m = trimEnd 32 l := hsame 0
    rw [agrees_congr huser, hshifted]
    obtain ⟨hl, hm⟩ | ⟨p, r, q, hp, rfl, rfl, hqr⟩ := line_cases hfirst
    · have ha := answerLines_self hl ls
      rw [shiftedRows_cons ha fun hlast => absurd (List.mem_of_getLast? hlast) hl, ha,
        userLines_self hm, hfirst, agrees_cons]
      exact ih ks hsame.tail
    · by_cases hr : r = []
      · rw [hr] at hqr hsame ⊢
        have ha := answerLines_end hp ls
        by_cases hq : q = []
        · rw [hq, shiftedRows_cons ha id, ha, userLines_append hp, if_pos rfl, agrees_cons]
          exact ih ks hsame.tail
        · -- blanks stand behind the byte: the reader sees one more line
          rw [shiftedRows_first ha (by simp) (getLast?_of_blank hqr hq), ha,
            userLines_blank hp hqr hq, agrees_cons,
            agrees_shift fun n hn hb => userLines_blank_below ls ks hsame.tail n hn hb]
          exact not_exists_not.symm
      · have ha := answerLines_inside hp hr ls
        refine iff_of_true ?_ (not_shiftedRows ha)
        rw [ha, userLines_append hp, agrees_cons]
        exact Agrees.nil _

/-! ### When the check is right -/

/-- A line of the answer ends with the byte 255 while blanks stand behind that byte in the same line
of the text, and the reader sees a line of the answer further down that is not blank. -/
def Shifted (u s : Str) : Prop :=
  ∃ i j, i < j ∧ ((splitRuns false s).getD i []).getLast? = some eofChar ∧
    ((splitRuns false u).getD i []).getLast? ≠ some eofChar ∧
    (fragments (answerText s)).getD j [] ≠ []

/-- **Texts with the same lines** look the same to the reader unless they are shifted. -/
theorem seen_iff_of_lines {u s : Str} (h : lines u = lines s) : Seen u s ↔ ¬ Shifted u s := by
  have hanswer : fragments (answerText s) = answerLines (splitRuns false s) :=
    splitRuns_answerLines s false
  have huser : ∀ i, (fragments (userText u)).getD i [] =
      (userLines (splitRuns false u)).getD i [] := splitRuns_userLines u false
  rw [Seen, ← compared_iff, Shifted, hanswer]
  exact (agrees_congr huser).trans
    (agrees_iff (splitRuns false s) (splitRuns false u) ((lines_eq_iff u s).mp h))

/-- The texts the check is right about.  Without the byte 255 these are all but the outputs that
have the answer's lines and more behind them.  With it, texts that have the same lines must not be
shifted, and in others the reader must not see the lines of the answer. -/
def RightlyCompared (u s : Str) : Prop :=
  if eofChar ∈ u ∨ eofChar ∈ s then if lines u = lines s then ¬ Shifted u s else ¬ Seen u s
  else ¬ Extends u s

/-- **When `noipstyle_check` says whether the lines are the same.** -/
theorem noipstyleCheck_lines_iff (u s : Str) :
    (noipstyleCheck (some u) (some s) = true ↔ lines u = lines s) ↔ RightlyCompared u s := by
  rw [noipstyleCheck_iff, RightlyCompared]
  by_cases h : eofChar ∈ u ∨ eofChar ∈ s
  · rw [if_pos h]
    by_cases hsame : lines u = lines s
    · rw [iff_true_right hsame, if_pos hsame]
      exact seen_iff_of_lines hsame
    · rw [iff_false_right hsame, if_neg hsame]
  · rw [not_or] at h
    rw [if_neg (not_or.mpr h), Seen, userText_self h.1, answerText_self h.2]
    constructor
    · intro hright hmore
      exact lines_ne_of_extends hmore (hright.mp (.inr hmore))
    · intro hnot
      constructor
      · intro hor
        cases hor with
        | inl hsame => exact hsame
        | inr hmore => exact absurd hmore hnot
      · exact fun hsame => .inl hsame

/-- **Further output is accepted**: a second line where the answer has one. -/
theorem further_output_accepted : ¬ ∀ u s : Str,
    noipstyleCheck (some u) (some s) = true ↔ lines u = lines s := by
  intro hall
  have hsame := (hall (ascii "1\n2\n") (ascii "1\n")).mp (by decide)
  exact absurd hsame (by decide)

end Rojcpp.Judge
