import Mathlib.Data.Int.Notation
import Mathlib.Data.List.Count
import Rojcpp.Lib.Scan

/-!
# Loops whose body moves the index

A counting loop `for (i = k; i < n; ++i)` over a text, whose body may step `i` back.  The index is
an integer, so a step below zero would be seen.  A loop runs on fuel and records its passes: the
index at which each pass starts, where the body leaves it, and the positions that it reads.

`WellStepped` is what a reader wants to know of such a record: all indices are in range, no position
is passed over more than twice, and the character behind is read only where there is one.  The rule
is `Follows.forLoop_from`: a body that follows a `Scanner` from index 1 on makes a well-stepped run
in at most two passes for every position, and ends in the state of the scanner's run.
-/

namespace Rojcpp.Lib

variable {σ α : Type}

/-- What one pass through the body of a loop does: the variables and the index it leaves, and the
positions it reads. -/
structure Pass (σ : Type) where
  vars : σ
  index : ℤ
  reads : List ℤ

/-- The passes of a loop, each with the index at which it starts. -/
abbrev Passes (σ : Type) := List (ℤ × Pass σ)

/-- `for (i = start; i < n; ++i)`, with fuel for as many passes. -/
def forLoop (n : ℤ) (body : σ → ℤ → Pass σ) : ℕ → σ → ℤ → Option (σ × Passes σ)
  | 0, s, i => if i < n then none else some (s, [])
  | fuel + 1, s, i =>
    if i < n then
      let p := body s i
      (forLoop n body fuel p.vars (p.index + 1)).map fun r => (r.1, (i, p) :: r.2)
    else some (s, [])

theorem forLoop_done {n i : ℤ} {body : σ → ℤ → Pass σ} (hi : n ≤ i) (fuel : ℕ) (s : σ) :
    forLoop n body fuel s i = some (s, []) := by
  cases fuel with
  | zero => exact if_neg (Int.not_lt.mpr hi)
  | succ fuel => exact if_neg (Int.not_lt.mpr hi)

theorem forLoop_pass {n i : ℤ} {body : σ → ℤ → Pass σ} {s t : σ} {ps : Passes σ} {fuel : ℕ}
    (hi : i < n)
    (h : forLoop n body fuel (body s i).vars ((body s i).index + 1) = some (t, ps)) :
    forLoop n body (fuel + 1) s i = some (t, (i, body s i) :: ps) := by
  rw [forLoop, if_pos hi]
  show (forLoop n body fuel (body s i).vars ((body s i).index + 1)).map _ = _
  rw [h]
  rfl

/-! ### Records of passes -/

/-- One pass that starts at this index keeps in range: it never has a negative index, and it reads
inside the text, the character behind only where there is one. -/
structure Pass.InRange (p : Pass σ) (n i : ℤ) : Prop where
  index : 0 ≤ p.index
  reads : ∀ r ∈ p.reads, 0 ≤ r ∧ r < n
  behind : i - 1 ∈ p.reads → 1 ≤ i

/-- The passes over the positions from `k` on. -/
structure WellStepped (k n : ℤ) (ps : Passes σ) : Prop where
  starts : ∀ e ∈ ps, k ≤ e.1 ∧ e.1 < n
  twice : ∀ i, ps.countP (·.1 = i) ≤ 2
  inRange : ∀ e ∈ ps, e.2.InRange n e.1

theorem WellStepped.nil (k n : ℤ) : WellStepped (σ := σ) k n [] where
  starts _ he := absurd he List.not_mem_nil
  twice _ := Nat.zero_le 2
  inRange _ he := absurd he List.not_mem_nil

/-- Passes that start later do not pass over this position. -/
theorem WellStepped.count_eq_zero {k n : ℤ} {ps : Passes σ} (h : WellStepped (k + 1) n ps) :
    ps.countP (·.1 = k) = 0 := by
  rw [List.countP_eq_zero]
  intro e he hk
  have hstart := (h.starts e he).1
  rw [decide_eq_true_eq] at hk
  omega

/-- **One or two passes over a position in front of the others.** -/
theorem WellStepped.append {k n : ℤ} {ps first : Passes σ} (h : WellStepped (k + 1) n ps)
    (hk : k < n) (hlength : first.length ≤ 2) (hfirst : ∀ e ∈ first, e.1 = k)
    (hrange : ∀ e ∈ first, e.2.InRange n k) : WellStepped k n (first ++ ps) where
  starts := by
    intro e he
    rcases List.mem_append.mp he with he | he
    · rw [hfirst e he]
      exact ⟨Int.le_refl k, hk⟩
    · have hstart := h.starts e he
      exact ⟨by omega, hstart.2⟩
  twice := by
    intro i
    rw [List.countP_append]
    by_cases hik : i = k
    · have hcount : first.countP (·.1 = i) ≤ first.length := List.countP_le_length
      rw [hik, h.count_eq_zero, ← hik]
      omega
    · have hzero : first.countP (·.1 = i) = 0 := by
        rw [List.countP_eq_zero]
        intro e he hi
        rw [decide_eq_true_eq, hfirst e he] at hi
        exact hik hi.symm
      rw [hzero, Nat.zero_add]
      exact h.twice i
  inRange := by
    intro e he
    rcases List.mem_append.mp he with he | he
    · rw [hfirst e he]
      exact hrange e he
    · exact h.inRange e he

/-! ### Bodies that follow a scanner -/

/-- Behind the first character the body does what the scanner does, and steps back where the scanner
looks again; it reads the character and at most the one behind it. -/
structure Follows (m : Scanner σ α) (text : List α) (body : σ → ℤ → Pass σ) : Prop where
  vars : ∀ s (k : ℕ) prev a, text[k]? = some prev → text[k + 1]? = some a →
    (body s (k + 1)).vars = (m.step s (some prev) a).1
  index : ∀ s (k : ℕ) prev a, text[k]? = some prev → text[k + 1]? = some a →
    (body s (k + 1)).index = if (m.step s (some prev) a).2 = true then (k : ℤ) else k + 1
  reads : ∀ s (i : ℤ), ∀ r ∈ (body s i).reads, r = i ∨ r = i - 1

/-- A body that takes the scanner's step, given the character behind where `behind` says so. -/
def Scanner.pass (m : Scanner σ α) (char : ℤ → α) (behind : σ → α → ℤ → Bool) (s : σ) (i : ℤ) :
    Pass σ :=
  let a := char i
  let looks := behind s a i
  let r := m.step s (if looks = true then some (char (i - 1)) else none) a
  { vars := r.1
    index := if r.2 = true then i - 1 else i
    reads := if looks = true then [i, i - 1] else [i] }

theorem Scanner.pass_reads (m : Scanner σ α) (char : ℤ → α) (behind : σ → α → ℤ → Bool) (s : σ)
    (i : ℤ) : ∀ r ∈ (m.pass char behind s i).reads, r = i ∨ r = i - 1 := by
  intro r hr
  simp only [pass] at hr
  split at hr
  · simpa using hr
  · exact .inl (List.mem_singleton.mp hr)

/-- **Such a body follows the scanner**, if the step does not depend on the character behind where
that is not looked at. -/
theorem Scanner.pass_follows (m : Scanner σ α) {text : List α} {char : ℤ → α}
    {behind : σ → α → ℤ → Bool} (hchar : ∀ (k : ℕ) a, text[k]? = some a → char k = a)
    (hblind : ∀ s a (k : ℕ), behind s a (k + 1) = false → ∀ p p', m.step s p a = m.step s p' a) :
    Follows m text (m.pass char behind) := by
  have hstep : ∀ s (k : ℕ) prev a, text[k]? = some prev → text[k + 1]? = some a →
      char (k + 1) = a ∧ char k = prev ∧
        m.step s (if behind s a (k + 1) = true then some prev else none) a =
          m.step s (some prev) a := by
    intro s k prev a hprev ha
    refine ⟨hchar (k + 1) a ha, hchar k prev hprev, ?_⟩
    cases hbehind : behind s a (k + 1) with
    | false => exact hblind s a k hbehind _ _
    | true => rfl
  refine ⟨?_, ?_, m.pass_reads char behind⟩
  · intro s k prev a hprev ha
    obtain ⟨hat, hbefore, hsame⟩ := hstep s k prev a hprev ha
    simp only [pass, hat, Int.add_sub_cancel, hbefore, hsame]
  · intro s k prev a hprev ha
    obtain ⟨hat, hbefore, hsame⟩ := hstep s k prev a hprev ha
    simp only [pass, hat, Int.add_sub_cancel, hbefore, hsame]

/-- A body that differs at index 0 only. -/
theorem Follows.of_succ {m : Scanner σ α} {text : List α} {body body' : σ → ℤ → Pass σ}
    (h : Follows m text body) (hsucc : ∀ s (k : ℕ), body' s (k + 1) = body s (k + 1))
    (hreads : ∀ s (i : ℤ), ∀ r ∈ (body' s i).reads, r = i ∨ r = i - 1) :
    Follows m text body' where
  vars s k prev a hprev ha := by
    rw [hsucc]
    exact h.vars s k prev a hprev ha
  index s k prev a hprev ha := by
    rw [hsucc]
    exact h.index s k prev a hprev ha
  reads := hreads

section
variable {m : Scanner σ α} {text : List α} {body : σ → ℤ → Pass σ}

theorem Follows.inRange (h : Follows m text body) (s : σ) (k : ℕ) {prev a : α}
    (hprev : text[k]? = some prev) (ha : text[k + 1]? = some a) :
    (body s (k + 1)).InRange text.length (k + 1) := by
  obtain ⟨hk, -⟩ := List.getElem?_eq_some_iff.mp ha
  refine ⟨?_, ?_, fun _ => by omega⟩
  · rw [h.index s k prev a hprev ha]
    split <;> omega
  · intro r hr
    have hcase := h.reads s (k + 1) r hr
    omega

/-- The passes over one position, which look at it as the scanner does: one, or two where it looks
again. -/
theorem Follows.look (h : Follows m text body) (s : σ) (k : ℕ) {prev a : α}
    (hprev : text[k]? = some prev) (ha : text[k + 1]? = some a) :
    ∃ first : Passes σ, first.length ≤ 2 ∧ (∀ e ∈ first, e.1 = k + 1) ∧
      (∀ e ∈ first, e.2.InRange text.length (k + 1)) ∧
      ∀ (t : σ) (ps : Passes σ) (bound : ℕ),
        (∀ fuel, bound ≤ fuel →
          forLoop text.length body fuel (m.look s (some prev) a) (k + 1 + 1) = some (t, ps)) →
        ∀ fuel, bound + 2 ≤ fuel →
          forLoop text.length body fuel s (k + 1) = some (t, first ++ ps) := by
  have hk : ((k : ℤ) + 1) < text.length := by
    obtain ⟨hk, -⟩ := List.getElem?_eq_some_iff.mp ha
    omega
  have hindex := h.index s k prev a hprev ha
  have hvars := h.vars s k prev a hprev ha
  cases hback : (m.step s (some prev) a).2 with
  | false =>
    rw [hback, if_neg Bool.false_ne_true] at hindex
    have hlook : m.look s (some prev) a = (m.step s (some prev) a).1 :=
      m.look_once (Prod.ext rfl hback)
    refine ⟨[(k + 1, body s (k + 1))], by simp, by simp, ?_, ?_⟩
    · intro e he
      rw [List.mem_singleton.mp he]
      exact h.inRange s k hprev ha
    · intro t ps bound hrest fuel hfuel
      obtain ⟨fuel, rfl⟩ : ∃ n, fuel = n + 1 := ⟨fuel - 1, by omega⟩
      refine forLoop_pass hk ?_
      rw [hvars, hindex, ← hlook]
      exact hrest fuel (by omega)
  | true =>
    rw [hback, if_pos rfl] at hindex
    have hagain := m.twice s (some prev) a hback
    have hlook : m.look s (some prev) a = (m.step (m.step s (some prev) a).1 (some prev) a).1 :=
      m.look_again (Prod.ext rfl hback)
    have hindex' := h.index (m.step s (some prev) a).1 k prev a hprev ha
    have hvars' := h.vars (m.step s (some prev) a).1 k prev a hprev ha
    rw [hagain, if_neg Bool.false_ne_true] at hindex'
    refine ⟨[(k + 1, body s (k + 1)), (k + 1, body (m.step s (some prev) a).1 (k + 1))],
      by simp, by simp, ?_, ?_⟩
    · intro e he
      rcases List.mem_cons.mp he with he | he
      · rw [he]
        exact h.inRange s k hprev ha
      · rw [List.mem_singleton.mp he]
        exact h.inRange _ k hprev ha
    · intro t ps bound hrest fuel hfuel
      obtain ⟨fuel, rfl⟩ : ∃ n, fuel = n + 1 + 1 := ⟨fuel - 2, by omega⟩
      refine forLoop_pass hk ?_
      rw [hvars, hindex]
      refine forLoop_pass hk ?_
      rw [hvars', hindex', ← hlook]
      exact hrest fuel (by omega)

/-- **The run of a loop that follows a scanner**, from a position that is not the first. -/
theorem Follows.forLoop_from (h : Follows m text body) (post : List α) :
    ∀ (k : ℕ) (prev : α) (s : σ), text.drop k = prev :: post →
      ∃ ps, (∀ fuel, 2 * post.length ≤ fuel →
          forLoop text.length body fuel s (k + 1) = some (m.run s (some prev) post, ps)) ∧
        WellStepped (k + 1) text.length ps := by
  induction post with
  | nil =>
    intro k prev s hdrop
    have hlength := congrArg List.length hdrop
    rw [List.length_drop, List.length_singleton] at hlength
    exact ⟨[], fun fuel _ => forLoop_done (by omega) fuel s, .nil _ _⟩
  | cons a post ih =>
    intro k prev s hdrop
    have hnext : text.drop (k + 1) = a :: post := by
      rw [← List.drop_drop, hdrop]
      rfl
    have hprev : text[k]? = some prev := by
      rw [← List.head?_drop, hdrop]
      rfl
    have ha : text[k + 1]? = some a := by
      rw [← List.head?_drop, hnext]
      rfl
    obtain ⟨hk, -⟩ := List.getElem?_eq_some_iff.mp ha
    obtain ⟨ps, hrun, hps⟩ := ih (k + 1) a (m.look s (some prev) a) hnext
    obtain ⟨first, hlength, hfirst, hrange, hlook⟩ := h.look s k hprev ha
    refine ⟨first ++ ps, ?_, hps.append (by omega) hlength hfirst hrange⟩
    intro fuel hfuel
    exact hlook _ ps (2 * post.length) hrun fuel hfuel

/-- **The whole run**, from a first pass that does not step back. -/
theorem Follows.forLoop_start (h : Follows m text body) {a : α} {post : List α}
    (htext : text = a :: post) {s : σ} (hindex : (body s 0).index = 0)
    (hreads : ∀ r ∈ (body s 0).reads, r = 0) :
    ∃ ps, (∀ fuel, 2 * text.length ≤ fuel →
        forLoop text.length body fuel s 0 = some (m.run (body s 0).vars (some a) post, ps)) ∧
      WellStepped 0 text.length ps := by
  have hlength : text.length = post.length + 1 := congrArg List.length htext
  obtain ⟨ps, hrun, hps⟩ := h.forLoop_from post 0 a (body s 0).vars htext
  refine ⟨(0, body s 0) :: ps, ?_, ?_⟩
  · intro fuel hfuel
    obtain ⟨fuel, rfl⟩ : ∃ n, fuel = n + 1 := ⟨fuel - 1, by omega⟩
    refine forLoop_pass (by omega) ?_
    rw [hindex]
    exact hrun fuel (by omega)
  · show WellStepped 0 text.length ([(0, body s 0)] ++ ps)
    refine hps.append (by omega) (by simp) (by simp) ?_
    intro e he
    rw [List.mem_singleton.mp he]
    refine ⟨Int.le_of_eq hindex.symm, ?_, ?_⟩
    · intro r hr
      rw [hreads r hr]
      omega
    · intro hbehind
      exact absurd (hreads _ hbehind) (by decide)

end

end Rojcpp.Lib
