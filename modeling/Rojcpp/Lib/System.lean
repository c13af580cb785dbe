import Mathlib.Tactic.TypeStar

/-!
# Systems that take steps

A system has a start state and an executable step: an action either applies to a state or does
not.  `run` applies a list of actions.  `Reachable ok` are the states of the runs whose steps all
meet `ok`, a condition on the state before a step and its action, so that a property can be proved
for the runs that avoid some step; with no condition they are all runs.

The rule is `Reachable.invariant`: what holds at the start and is kept by every step that meets
the condition holds of every reachable state.  `run_invariant` is the same from any state on,
`run_history` the rule for what relates a state to the actions that led to it,
`run_simulation_until` the one for two systems that answer the same actions until some step brings
one to an end, `meets_congr` the one for two conditions on the steps that an invariant makes the
same, and `throughout_iff` the one for a property that a step breaks exactly when it does not meet
a condition.
-/

namespace Rojcpp.Lib

/-- A start state and a partial step. -/
structure System (σ α : Type*) where
  start : σ
  step : σ → α → Option σ

namespace System

variable {σ α : Type*} (S : System σ α)

/-- A list of actions, one after the other. -/
def run (s : σ) : List α → Option σ
  | [] => some s
  | a :: as => (S.step s a).bind fun s' => run s' as

/-- A system whose steps all apply runs through every list of actions. -/
theorem exists_run (htotal : ∀ s a, ∃ s', S.step s a = some s') (as : List α) :
    ∀ s : σ, ∃ t, S.run s as = some t := by
  induction as with
  | nil => exact fun s => ⟨s, rfl⟩
  | cons a as ih =>
    intro s
    obtain ⟨s', hs'⟩ := htotal s a
    rw [run, hs']
    exact ih s'

/-- The states reached by steps that all meet `ok`. -/
inductive Reachable (ok : σ → α → Prop) : σ → Prop
  | start : Reachable ok S.start
  | step {s s' : σ} {a : α} :
      Reachable ok s → ok s a → S.step s a = some s' → Reachable ok s'

/-- No condition on the steps. -/
def anyStep : σ → α → Prop := fun _ _ => True

theorem run_append (as bs : List α) : ∀ s : σ,
    S.run s (as ++ bs) = (S.run s as).bind fun t => S.run t bs := by
  induction as with
  | nil => exact fun _ => rfl
  | cons a as ih =>
    intro s
    rw [List.cons_append, run, run, Option.bind_assoc]
    congr 1
    funext t
    exact ih t

variable {S}

/-- **Invariant rule.** -/
theorem Reachable.invariant {ok : σ → α → Prop} (P : σ → Prop) (hstart : P S.start)
    (hstep : ∀ s a s', P s → ok s a → S.step s a = some s' → P s') :
    ∀ {s : σ}, S.Reachable ok s → P s := by
  intro s hs
  induction hs with
  | start => exact hstart
  | step _ hok hs ih => exact hstep _ _ _ ih hok hs

/-- **Rule for runs with their history**: what holds of no actions and the start, and is kept by one
more action, holds of every run and the state it ends in. -/
theorem run_history {P : List α → σ → Prop} (hstart : P [] S.start)
    (hstep : ∀ as s a s', P as s → S.step s a = some s' → P (as ++ [a]) s') :
    ∀ (as : List α) {s : σ}, S.run S.start as = some s → P as s := by
  have hall : ∀ (bs as : List α) {s t : σ}, P as s → S.run s bs = some t → P (as ++ bs) t := by
    intro bs
    induction bs with
    | nil =>
      intro as s t hs h
      cases h
      rw [List.append_nil]
      exact hs
    | cons b bs ih =>
      intro as s t hs h
      obtain ⟨u, hu, h⟩ := Option.bind_eq_some_iff.mp h
      have hcons := ih (as ++ [b]) (hstep as s b u hs hu) h
      rwa [List.append_assoc, List.singleton_append] at hcons
  exact fun as _ h => hall as [] hstart h

/-- The steps of a run all meet `ok`. -/
def Meets (S : System σ α) (ok : σ → α → Prop) (s : σ) : List α → Prop
  | [] => True
  | a :: as => ok s a ∧ ∀ s', S.step s a = some s' → Meets S ok s' as

/-- Whether a run meets a condition can be evaluated when the condition can. -/
instance decidableMeets {ok : σ → α → Prop} [∀ s a, Decidable (ok s a)] (s : σ) :
    ∀ as, Decidable (S.Meets ok s as)
  | [] => isTrue trivial
  | a :: as =>
    have : ∀ s', Decidable (S.Meets ok s' as) := fun s' => decidableMeets s' as
    inferInstanceAs (Decidable (ok s a ∧ ∀ s' ∈ S.step s a, S.Meets ok s' as))

theorem meets_of_forall {ok : σ → α → Prop} {as : List α} (h : ∀ a ∈ as, ∀ s, ok s a) (s : σ) :
    S.Meets ok s as := by
  induction as generalizing s with
  | nil => exact trivial
  | cons a as ih =>
    refine ⟨h a List.mem_cons_self s, fun s' _ => ih (fun b hb => ?_) s'⟩
    exact h b (List.mem_cons_of_mem _ hb)

theorem meets_anyStep (s : σ) (as : List α) : S.Meets anyStep s as :=
  meets_of_forall (fun _ _ _ => trivial) s

/-- **Rule for two conditions on the steps** that agree wherever an invariant holds: a run whose
steps all apply meets the one exactly when it meets the other. -/
theorem meets_congr {I : σ → Prop} {P Q : σ → α → Prop}
    (hstep : ∀ s a s', I s → S.step s a = some s' → I s')
    (hiff : ∀ s a s', I s → S.step s a = some s' → (P s a ↔ Q s a)) (as : List α) :
    ∀ {s t : σ}, I s → S.run s as = some t → (S.Meets P s as ↔ S.Meets Q s as) := by
  induction as with
  | nil => exact fun _ _ => Iff.rfl
  | cons a as ih =>
    intro s t hs h
    obtain ⟨u, hu, h⟩ := Option.bind_eq_some_iff.mp h
    have hrest := ih (hstep s a u hs hu) h
    simp only [Meets, hu, Option.some.injEq, forall_eq']
    exact and_congr (hiff s a u hs hu) hrest

/-- **Rule for a simulation that some steps end**: a step that meets the condition is done by the
other system too, and the other stops at one that does not.  Then it follows a run exactly as long
as the steps meet the condition. -/
theorem run_simulation_until {τ : Type*} {T : System τ α} {R : σ → τ → Prop} {ok : σ → α → Prop}
    (hgood : ∀ s t a s', R s t → ok s a → S.step s a = some s' →
      ∃ t', T.step t a = some t' ∧ R s' t')
    (hbad : ∀ s t a s', R s t → ¬ok s a → S.step s a = some s' → T.step t a = none)
    (as : List α) : ∀ {s : σ} {t : τ} {s' : σ}, R s t → S.run s as = some s' →
      (S.Meets ok s as → ∃ t', T.run t as = some t' ∧ R s' t') ∧
        (¬S.Meets ok s as → T.run t as = none) := by
  induction as with
  | nil =>
    intro s t s' hR h
    cases h
    exact ⟨fun _ => ⟨t, rfl, hR⟩, fun hnot => absurd trivial hnot⟩
  | cons a as ih =>
    intro s t s' hR h
    obtain ⟨u, hu, h⟩ := Option.bind_eq_some_iff.mp h
    have hmeets : S.Meets ok s (a :: as) ↔ ok s a ∧ S.Meets ok u as := by
      simp only [Meets, hu, Option.some.injEq, forall_eq']
    rw [hmeets, run]
    by_cases hok : ok s a
    · obtain ⟨v, hv, hR⟩ := hgood s t a u hR hok hu
      obtain ⟨hfollows, hstops⟩ := ih hR h
      rw [hv, Option.bind_some]
      exact ⟨fun hall => hfollows hall.2, fun hnot => hstops fun hall => hnot ⟨hok, hall⟩⟩
    · rw [hbad s t a u hR hok hu]
      exact ⟨fun hall => absurd hall.1 hok, fun _ => rfl⟩

/-- **Invariant rule for one run**: what the steps keep that meet the condition holds at the end of
a run of such steps, if it holds at the beginning. -/
theorem run_invariant {ok : σ → α → Prop} {P : σ → Prop}
    (hstep : ∀ s a s', P s → ok s a → S.step s a = some s' → P s') (as : List α) :
    ∀ {s s' : σ}, P s → S.Meets ok s as → S.run s as = some s' → P s' := by
  induction as with
  | nil =>
    intro s s' hs _ h
    cases h
    exact hs
  | cons a as ih =>
    intro s s' hs hok h
    obtain ⟨t, ht, h⟩ := Option.bind_eq_some_iff.mp h
    exact ih (hstep s a t hs hok.1 ht) (hok.2 t ht) h

/-- A run from a reachable state whose steps meet the condition ends in a reachable state. -/
theorem Reachable.run {ok : σ → α → Prop} {s s' : σ} (hs : S.Reachable ok s) (as : List α)
    (hok : S.Meets ok s as) (h : S.run s as = some s') : S.Reachable ok s' :=
  run_invariant (fun _ _ _ hs hok h => .step hs hok h) as hs hok h

/-- The property holds in every state that a run comes through. -/
def Throughout (S : System σ α) (E : σ → Prop) (s : σ) (as : List α) : Prop :=
  ∀ pre post u, as = pre ++ post → S.run s pre = some u → E u

theorem throughout_cons {E : σ → Prop} {s t : σ} {a : α} {as : List α} (ht : S.step s a = some t) :
    S.Throughout E s (a :: as) ↔ E s ∧ S.Throughout E t as := by
  constructor
  · intro h
    refine ⟨h [] (a :: as) s rfl rfl, fun pre post u has hu => ?_⟩
    refine h (a :: pre) post u (by rw [has, List.cons_append]) ?_
    rw [run, ht]
    exact hu
  · intro h pre post u has hu
    cases pre with
    | nil =>
      cases hu
      exact h.1
    | cons b pre =>
      rw [List.cons_append, List.cons.injEq] at has
      obtain ⟨rfl, has⟩ := has
      rw [run, ht] at hu
      exact h.2 pre post u has hu

/-- **Rule for what exactly some steps break.**  An invariant that gives the property is kept by the
steps that meet the condition, and the property is lost by every other: then it holds throughout a
run exactly when all steps meet the condition. -/
theorem throughout_iff {I E : σ → Prop} {ok : σ → α → Prop} (hexact : ∀ s, I s → E s)
    (hgood : ∀ s a s', I s → ok s a → S.step s a = some s' → I s')
    (hbad : ∀ s a s', I s → ¬ok s a → S.step s a = some s' → ¬E s') (as : List α) :
    ∀ {s t : σ}, I s → S.run s as = some t → (S.Throughout E s as ↔ S.Meets ok s as) := by
  induction as with
  | nil =>
    intro s t hs _
    refine iff_of_true (fun pre post u has hu => ?_) trivial
    rw [(List.append_eq_nil_iff.mp has.symm).1] at hu
    cases hu
    exact hexact s hs
  | cons a as ih =>
    intro s t hs h
    obtain ⟨u, hu, h⟩ := Option.bind_eq_some_iff.mp h
    rw [throughout_cons hu]
    constructor
    · intro hall
      by_cases hok : ok s a
      · refine ⟨hok, fun u' hu' => ?_⟩
        rw [hu, Option.some.injEq] at hu'
        rw [← hu']
        exact (ih (hgood s a u hs hok hu) h).mp hall.2
      · exact absurd (hall.2 [] as u rfl rfl) (hbad s a u hs hok hu)
    · intro hmeets
      exact ⟨hexact s hs, (ih (hgood s a u hs hmeets.1 hu) h).mpr (hmeets.2 u hu)⟩

end System

end Rojcpp.Lib
