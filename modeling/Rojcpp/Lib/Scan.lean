import Mathlib.Data.Nat.Notation

/-!
# Character machines that look back and look again

A scanner reads a list from left to right.  A step sees the symbol in front of the current one,
and may ask for the same symbol once more, which is what a loop does that steps its index back
before the loop's own increment.  A scanner carries the proof that the second look never asks
again, so that a run is a recursion over the list.

A state that does not use the symbol behind it is *blind*; runs from such states compose without
keeping track of that symbol.  `nestDepth` counts two symbols that open and close a level, for the
machines that follow a nested text to its end.
-/

namespace Rojcpp.Lib

/-- A step function, and the proof that no symbol is looked at more than twice. -/
structure Scanner (σ α : Type) where
  step : σ → Option α → α → σ × Bool
  twice : ∀ s prev a, (step s prev a).2 = true → (step (step s prev a).1 prev a).2 = false

variable {σ α : Type} (m : Scanner σ α)

/-- All looks at one symbol. -/
def Scanner.look (s : σ) (prev : Option α) (a : α) : σ :=
  if (m.step s prev a).2 then (m.step (m.step s prev a).1 prev a).1 else (m.step s prev a).1

/-- The run over a list; `prev` is the symbol in front of it. -/
def Scanner.run (s : σ) (prev : Option α) : List α → σ
  | [] => s
  | a :: t => Scanner.run (m.look s prev a) (some a) t

/-- The state does not use the symbol behind the current one. -/
def Scanner.Blind (s : σ) : Prop := ∀ prev prev' a, m.look s prev a = m.look s prev' a

/-- A state is blind when its step is, and the step after going back is too. -/
theorem Scanner.blind_of_step {s : σ} (h : ∀ prev prev' a, m.step s prev a = m.step s prev' a)
    (hagain : ∀ prev a, (m.step s prev a).2 = true → ∀ q q',
      m.step (m.step s prev a).1 q a = m.step (m.step s prev a).1 q' a) : m.Blind s := by
  intro prev prev' a
  rw [look, look, h prev prev']
  by_cases hback : (m.step s prev' a).2 = true
  · rw [if_pos hback, if_pos hback, hagain prev' a hback prev prev']
  · rw [if_neg hback, if_neg hback]

theorem Scanner.look_once {s : σ} {prev : Option α} {a : α} {s' : σ}
    (h : m.step s prev a = (s', false)) : m.look s prev a = s' := by
  rw [look, h]
  rfl

theorem Scanner.look_again {s : σ} {prev : Option α} {a : α} {s' : σ}
    (h : m.step s prev a = (s', true)) : m.look s prev a = (m.step s' prev a).1 := by
  rw [look, h]
  rfl

/-- From a blind state the symbol in front of the list does not matter. -/
theorem Scanner.run_blind {s : σ} (hs : m.Blind s) (prev prev' : Option α) (t : List α) :
    m.run s prev t = m.run s prev' t := by
  cases t with
  | nil => rfl
  | cons a t => rw [run, run, hs prev prev']

/-- A symbol that leads to a blind state. -/
theorem Scanner.run_step {s s' : σ} {prev : Option α} {a : α} (h : m.look s prev a = s')
    (hs' : m.Blind s') (t : List α) : m.run s prev (a :: t) = m.run s' none t := by
  rw [run, h]
  exact m.run_blind hs' _ _ t

/-- Symbols a blind state stays in. -/
theorem Scanner.run_skip {s : σ} (hs : m.Blind s) {u : List α}
    (hu : ∀ a ∈ u, m.look s none a = s) (prev : Option α) (t : List α) :
    m.run s prev (u ++ t) = m.run s none t := by
  induction u generalizing prev with
  | nil => exact m.run_blind hs _ _ t
  | cons a u ih =>
    have ha : m.look s prev a = s := by rw [hs prev none]; exact hu a (by simp)
    rw [List.cons_append, run, ha]
    exact ih (fun b hb => hu b (by simp [hb])) _

/-- Symbols a family of blind states collects. -/
theorem Scanner.run_collect (f : List α → σ) (hf : ∀ v, m.Blind (f v)) {u : List α}
    (hu : ∀ v, ∀ a ∈ u, m.look (f v) none a = f (v ++ [a])) (v : List α) (prev : Option α)
    (t : List α) : m.run (f v) prev (u ++ t) = m.run (f (v ++ u)) none t := by
  induction u generalizing v prev with
  | nil => rw [List.nil_append, List.append_nil]; exact m.run_blind (hf v) _ _ t
  | cons a u ih =>
    have ha : m.look (f v) prev a = f (v ++ [a]) := by
      rw [hf v prev none]
      exact hu v a (by simp)
    rw [List.cons_append, run, ha, ih (fun w b hb => hu w b (by simp [hb])), List.append_assoc]
    rfl

/-! ### Nesting -/

section
variable [DecidableEq α] (op cl : α)

/-- The depth behind a text that starts `n` deep, if it never comes out of the last level. -/
def nestDepth (n : ℕ) : List α → Option ℕ
  | [] => some n
  | c :: t =>
    if c = op then nestDepth (n + 1) t
    else if c = cl then if n = 1 then none else nestDepth (n - 1) t
    else nestDepth n t

theorem nestDepth_append (u t : List α) : ∀ n : ℕ,
    nestDepth op cl n (u ++ t) = (nestDepth op cl n u).bind fun k => nestDepth op cl k t := by
  induction u with
  | nil => exact fun _ => rfl
  | cons c u ih =>
    intro n
    rw [List.cons_append, nestDepth, nestDepth]
    split
    · exact ih _
    · split
      · split
        · rfl
        · exact ih _
      · exact ih _

theorem nestDepth_pos (u : List α) : ∀ {n k : ℕ}, 0 < n → nestDepth op cl n u = some k → 0 < k := by
  induction u with
  | nil =>
    intro n k hn h
    cases h
    exact hn
  | cons c u ih =>
    intro n k hn h
    rw [nestDepth] at h
    split at h
    · exact ih (Nat.succ_pos n) h
    · split at h
      · split at h
        · cases h
        · exact ih (by omega) h
      · exact ih hn h

/-- Symbols that a family of blind states collects, one state for every depth. -/
theorem Scanner.run_nest (f : List α → ℕ → σ) (hf : ∀ v n, m.Blind (f v n))
    (hopen : ∀ v n, m.look (f v n) none op = f (v ++ [op]) (n + 1))
    (hclose : ∀ v n, 1 < n → m.look (f v n) none cl = f (v ++ [cl]) (n - 1))
    (hother : ∀ v n, ∀ a, a ≠ op → a ≠ cl → m.look (f v n) none a = f (v ++ [a]) n)
    (u t : List α) : ∀ (v : List α) (n k : ℕ) (prev : Option α), 0 < n →
      nestDepth op cl n u = some k → m.run (f v n) prev (u ++ t) = m.run (f (v ++ u) k) none t := by
  induction u with
  | nil =>
    intro v n k prev _ h
    cases h
    rw [List.nil_append, List.append_nil]
    exact m.run_blind (hf v n) _ _ t
  | cons c u ih =>
    intro v n k prev hn h
    have hstep : ∃ n', 0 < n' ∧ nestDepth op cl n' u = some k ∧
        m.look (f v n) none c = f (v ++ [c]) n' := by
      rw [nestDepth] at h
      by_cases hop : c = op
      · rw [if_pos hop] at h
        exact ⟨n + 1, Nat.succ_pos n, h, by rw [hop]; exact hopen v n⟩
      · rw [if_neg hop] at h
        by_cases hcl : c = cl
        · rw [if_pos hcl] at h
          by_cases hone : n = 1
          · rw [if_pos hone] at h
            cases h
          · rw [if_neg hone] at h
            exact ⟨n - 1, by omega, h, by rw [hcl]; exact hclose v n (by omega)⟩
        · rw [if_neg hcl] at h
          exact ⟨n, hn, h, hother v n c hop hcl⟩
    obtain ⟨n', hn', hdepth, hlook⟩ := hstep
    rw [← hf v n prev none] at hlook
    rw [List.cons_append, run, hlook, ih (v ++ [c]) n' k (some c) hn' hdepth, List.append_assoc]
    rfl

end

end Rojcpp.Lib
