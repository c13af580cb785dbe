import Mathlib.Data.List.TakeWhile
import Mathlib.Tactic.TypeStar

/-!
# Lines, an empty line, and a body

The text format in which a sender puts some lines, each closed by the same two symbols, one empty
line, and then whatever it likes.  A line carries the proof that it is not empty and does not hold
the first of the two symbols, so that the empty line is the only place where the body can begin.

`Message.text_injective` says that a reader finds the lines and the body again: two messages with
the same text are the same.
-/

namespace Rojcpp.Lib

variable {α : Type*} {cr : α}

/-- A line without its end. -/
structure Line (cr : α) where
  text : List α
  nonempty : text ≠ []
  noEnd : cr ∉ text

/-- Lines with their ends, and the empty line. -/
def block (lf : α) : List (Line cr) → List α
  | [] => [cr, lf]
  | l :: ls => l.text ++ cr :: lf :: block lf ls

/-- A first line, the other lines, and what stands behind the empty line. -/
structure Message (cr : α) where
  start : Line cr
  headers : List (Line cr)
  body : List α

/-- The text of a message. -/
def Message.text (lf : α) (m : Message cr) : List α :=
  block lf (m.start :: m.headers) ++ m.body

theorem Line.ext_text {l l' : Line cr} (h : l.text = l'.text) : l = l' := by
  cases l
  cases l'
  cases h
  rfl

/-- What stands in front of the first line end. -/
theorem takeWhile_line [DecidableEq α] (l : Line cr) (t : List α) :
    (l.text ++ cr :: t).takeWhile (fun c => decide (c ≠ cr)) = l.text := by
  have hall : ∀ c ∈ l.text, decide (c ≠ cr) = true := by
    intro c hc
    rw [decide_eq_true_eq]
    intro heq
    exact l.noEnd (heq ▸ hc)
  rw [List.takeWhile_append_of_pos hall, List.takeWhile_cons_of_neg (by simp), List.append_nil]

/-- Two lines in front of a line end. -/
theorem line_cancel {l l' : Line cr} {t t' : List α} (h : l.text ++ cr :: t = l'.text ++ cr :: t') :
    l = l' ∧ t = t' := by
  classical
  have htext : l.text = l'.text := by
    rw [← takeWhile_line l t, h, takeWhile_line]
  rw [htext] at h
  exact ⟨Line.ext_text htext, (List.cons.inj (List.append_cancel_left h)).2⟩

/-- **A block of lines is read in one way only.** -/
theorem block_cancel (lf : α) (ls : List (Line cr)) : ∀ (ls' : List (Line cr)) (b b' : List α),
    block lf ls ++ b = block lf ls' ++ b' → ls = ls' ∧ b = b' := by
  have hfirst : ∀ (l : Line cr) (t u : List α), cr :: t ≠ l.text ++ u := by
    intro l t u h
    obtain ⟨c, s, hcs⟩ := List.exists_cons_of_ne_nil l.nonempty
    rw [hcs, List.cons_append, List.cons.injEq] at h
    apply l.noEnd
    rw [hcs, h.1]
    exact List.mem_cons_self
  induction ls with
  | nil =>
    intro ls' b b' h
    cases ls' with
    | nil => exact ⟨rfl, List.append_cancel_left h⟩
    | cons l' ls' =>
      rw [block, block, List.append_assoc] at h
      exact absurd h (hfirst l' _ _)
  | cons l ls ih =>
    intro ls' b b' h
    cases ls' with
    | nil =>
      rw [block, block, List.append_assoc] at h
      exact absurd h.symm (hfirst l _ _)
    | cons l' ls' =>
      rw [block, block, List.append_assoc, List.append_assoc] at h
      obtain ⟨hline, hrest⟩ := line_cancel h
      obtain ⟨hlines, hbody⟩ := ih ls' b b' (List.cons.inj hrest).2
      exact ⟨by rw [hline, hlines], hbody⟩

/-- **A message is determined by its text.** -/
theorem Message.text_injective (lf : α) {m m' : Message cr} (h : m.text lf = m'.text lf) :
    m = m' := by
  obtain ⟨hlines, hbody⟩ := block_cancel lf _ _ _ _ h
  obtain ⟨hstart, hheaders⟩ := List.cons.inj hlines
  cases m
  cases m'
  cases hstart
  cases hheaders
  cases hbody
  rfl

end Rojcpp.Lib
