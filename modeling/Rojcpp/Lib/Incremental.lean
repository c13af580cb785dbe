import Mathlib.Data.List.Basic

/-!
# Parsers of an input that is still arriving

A parser of the input received so far may answer that it needs more.  One that is run again on all
of the input whenever some more has come should answer anything else only once: more input must
not change the answer, except that what the answer says about the rest of the input grows with it.
`Settled` relates an answer to a later one, with one rule for each way in which parsers are put
together.

`settles_at` is the rule for an input that comes in pieces, whatever they are: there is one piece
that settles the answer, and it settles it to that of the whole input.
-/

namespace Rojcpp.Lib

variable {ε α β γ δ σ : Type} {more : ε}

/-- `later` is the answer `now`, changed by `grow`, unless `now` asks for more. -/
def Settled (more : ε) (grow : α → β) (now : Except ε α) (later : Except ε β) : Prop :=
  now ≠ .error more → later = now.map grow

namespace Settled

variable {grow : α → β} {grow' : γ → δ} {now : Except ε α} {later : Except ε β}

theorem waiting : Settled more grow (.error more) later := fun h => absurd rfl h

theorem error (e : ε) : Settled more grow (.error e) (.error e) := fun _ => rfl

theorem ok {a : α} {b : β} (h : b = grow a) : Settled more grow (.ok a) (.ok b) := by
  intro _
  rw [h]
  rfl

/-- An answer that asks for more did so all the time. -/
theorem waits (h : Settled more grow now later) (hlater : later = .error more) :
    now = .error more := by
  by_contra hne
  cases now with
  | error e =>
    have hsame : Except.error more = (Except.error e : Except ε β) := hlater.symm.trans (h hne)
    cases hsame
    exact hne rfl
  | ok a =>
    have hsame : Except.error more = (Except.ok (grow a) : Except ε β) := hlater.symm.trans (h hne)
    cases hsame

theorem map (h : Settled more grow now later) {f : α → γ} {f' : β → δ}
    (hf : ∀ a, f' (grow a) = grow' (f a)) : Settled more grow' (now.map f) (later.map f') := by
  cases now with
  | error e =>
    by_cases he : e = more
    · rw [he]
      exact waiting
    · rw [h fun heq => he (Except.error.inj heq)]
      exact error e
  | ok a =>
    rw [h fun heq => by cases heq]
    exact ok (hf a)

/-- A test that later input does not change. -/
theorem ite {p : Prop} [Decidable p] {now' : Except ε α} {later' : Except ε β}
    (h : p → Settled more grow now later) (h' : ¬p → Settled more grow now' later') :
    Settled more grow (if p then now else now') (if p then later else later') := by
  by_cases hp : p
  · rw [if_pos hp, if_pos hp]
    exact h hp
  · rw [if_neg hp, if_neg hp]
    exact h' hp

/-- One parser after the other. -/
theorem bind (h : Settled more grow now later) {k : α → Except ε γ} {k' : β → Except ε δ}
    (hk : ∀ a, now = .ok a → Settled more grow' (k a) (k' (grow a))) :
    Settled more grow' (now >>= k) (later >>= k') := by
  cases now with
  | error e =>
    by_cases he : e = more
    · rw [he]
      exact waiting
    · rw [h fun heq => he (Except.error.inj heq)]
      exact error e
  | ok a =>
    rw [h fun heq => by cases heq]
    exact hk a rfl

end Settled

/-! ### An input in pieces -/

/-- Where a parser that reads to the end of an input stands on every shorter one. -/
theorem prefix_waits {parse : List σ → Except ε (α × List σ)} {grow : List σ → α → α}
    (hparse : ∀ s t, Settled more (fun r => (grow t r.1, r.2 ++ t)) (parse s) (parse (s ++ t)))
    {s t : List σ} {a : α} (h : parse (s ++ t) = .ok (a, [])) (ht : t ≠ []) :
    parse s = .error more := by
  by_contra hne
  have hlater := hparse s t hne
  rw [h] at hlater
  cases hnow : parse s with
  | error e => rw [hnow] at hlater; cases hlater
  | ok r =>
    rw [hnow] at hlater
    have hrest : [] = r.2 ++ t := congrArg Prod.snd (Except.ok.inj hlater)
    exact ht (List.append_eq_nil_iff.mp hrest.symm).2

/-- **One piece settles the answer**, and it settles it to that of the whole input. -/
theorem settles_at {parse : List σ → Except ε α} {grow : List σ → α → α}
    (hparse : ∀ s t, Settled more (grow t) (parse s) (parse (s ++ t))) (pieces : List (List σ)) :
    ∀ got : List σ, parse got = .error more → parse (got ++ pieces.flatten) ≠ .error more →
      ∃ before p after, pieces = before ++ p :: after ∧
        parse (got ++ before.flatten) = .error more ∧
        parse (got ++ (before.flatten ++ p)) ≠ .error more ∧
        parse (got ++ pieces.flatten) =
          (parse (got ++ (before.flatten ++ p))).map (grow after.flatten) := by
  induction pieces with
  | nil =>
    intro got hgot hne
    rw [List.flatten_nil, List.append_nil] at hne
    exact absurd hgot hne
  | cons p ps ih =>
    intro got hgot hne
    rw [List.flatten_cons, ← List.append_assoc] at hne
    by_cases hp : parse (got ++ p) = .error more
    · obtain ⟨before, q, after, rfl, hbefore, hq, hall⟩ := ih (got ++ p) hp hne
      refine ⟨p :: before, q, after, rfl, ?_, ?_, ?_⟩
      · rw [List.flatten_cons, ← List.append_assoc]
        exact hbefore
      · rw [List.flatten_cons, List.append_assoc, ← List.append_assoc got]
        exact hq
      · rw [List.flatten_cons, List.flatten_cons, List.append_assoc p, ← List.append_assoc got p,
          ← List.append_assoc got p]
        exact hall
    · refine ⟨[], p, ps, rfl, ?_, ?_, ?_⟩
      · rw [List.flatten_nil, List.append_nil]
        exact hgot
      · rw [List.flatten_nil, List.nil_append]
        exact hp
      · rw [List.flatten_nil, List.nil_append, List.flatten_cons, ← List.append_assoc]
        exact hparse (got ++ p) ps.flatten hp

end Rojcpp.Lib
