import Rojcpp.Json.Parse

/-!
# `unpacking_list`

The second character machine of the library, which cuts the text of a list into the texts of its
elements.  It does not look at its first character, and it treats a quote like the first character
of a number, so its string state is never entered: a comma or a closing bracket ends an element
wherever it stands.
-/

namespace Rojcpp.Json

open Rojcpp.Lib

/-- The states of the loop. -/
inductive UnpackState where
  | init
  | parseFundamental
  | parseString
  | parseStruct
  | parseIterable
  | endParse
  deriving DecidableEq, Repr

/-- The variables of the loop; the layers are integers as those of `Parser`. -/
structure Unpacker where
  state : UnpackState
  vec : List Str
  temp : Str
  nestedStruct : ℤ
  nestedIterable : ℤ
  deriving DecidableEq, Repr

/-- One pass through the loop's body. -/
def unpackStep (s : Unpacker) (prev : Option UInt8) (it : UInt8) : Unpacker × Bool :=
  let pushed := { s with temp := s.temp ++ [it] }
  match s.state with
  | .init =>
    if it = lbrace then
      ({ pushed with state := .parseStruct, nestedStruct := s.nestedStruct + 1 }, false)
    else if it = lbracket then
      ({ pushed with state := .parseIterable, nestedIterable := s.nestedIterable + 1 }, false)
    else if it ≠ comma ∧ it ≠ ' ' then ({ pushed with state := .parseFundamental }, false)
    else if it = dquote then ({ pushed with state := .parseString }, false)
    else (s, false)
  | .parseString =>
    if it = dquote ∧ prev.any (fun c => c != bslash) = true then
      ({ pushed with state := .endParse }, true)
    else (pushed, false)
  | .parseStruct =>
    let nested := s.nestedStruct + if it = rbrace then -1 else if it = lbrace then 1 else 0
    if nested = 0 then ({ pushed with state := .endParse, nestedStruct := nested }, true)
    else ({ pushed with nestedStruct := nested }, false)
  | .parseIterable =>
    let nested := s.nestedIterable + if it = rbracket then -1 else if it = lbracket then 1 else 0
    if nested = 0 then ({ pushed with state := .endParse, nestedIterable := nested }, true)
    else ({ pushed with nestedIterable := nested }, false)
  | .parseFundamental =>
    if it = comma ∨ it = rbracket then ({ s with state := .endParse }, true)
    else (pushed, false)
  | .endParse => ({ s with vec := s.vec ++ [s.temp], temp := [], state := .init }, false)

theorem unpackStep_again (s : Unpacker) (prev : Option UInt8) (it : UInt8)
    (h : (unpackStep s prev it).2 = true) : (unpackStep s prev it).1.state = .endParse := by
  rw [unpackStep] at h ⊢
  cases hstate : s.state with
  | init => grind
  | parseFundamental => grind
  | parseString => grind
  | parseStruct => grind
  | parseIterable => grind
  | endParse => rw [hstate] at h; cases h

theorem unpackStep_endParse (s : Unpacker) (prev : Option UInt8) (it : UInt8)
    (h : s.state = .endParse) :
    unpackStep s prev it =
      ({ s with vec := s.vec ++ [s.temp], temp := [], state := .init }, false) := by
  rw [unpackStep, h]

theorem unpackStep_prev {s : Unpacker} {it : UInt8} (h : ¬(s.state = .parseString ∧ it = dquote))
    (prev prev' : Option UInt8) : unpackStep s prev it = unpackStep s prev' it := by
  rw [unpackStep, unpackStep]
  cases hstate : s.state with
  | parseString =>
    have hit : it ≠ dquote := fun hit => h ⟨hstate, hit⟩
    show (if it = dquote ∧ _ then _ else _) = if it = dquote ∧ _ then _ else _
    rw [if_neg fun hboth => hit hboth.1, if_neg fun hboth => hit hboth.1]
  | init => rfl
  | parseStruct => rfl
  | parseFundamental => rfl
  | parseIterable => rfl
  | endParse => rfl

/-- The machine of `unpacking_list`. -/
def unpackMachine : Scanner Unpacker UInt8 where
  step := unpackStep
  twice s prev it h := by rw [unpackStep_endParse _ _ _ (unpackStep_again s prev it h)]

/-- `unpacking_list`: the body does nothing at index 0. -/
def unpackingList : Str → List Str
  | [] => []
  | c :: serialized => (unpackMachine.run ⟨.init, [], [], 0, 0⟩ (some c) serialized).vec

/-! ### The text of a list -/

/-- Between two elements. -/
def atElement (vec : List Str) : Unpacker := ⟨.init, vec, [], 0, 0⟩

/-- Inside an element that is taken for a number. -/
def inElement (vec : List Str) (temp : Str) : Unpacker := ⟨.parseFundamental, vec, temp, 0, 0⟩

theorem unpack_blind {s : Unpacker} (h : s.state ≠ .parseString) : unpackMachine.Blind s := by
  apply unpackMachine.blind_of_step
  · intro prev prev' it
    exact unpackStep_prev (fun hquote => h hquote.1) prev prev'
  · intro prev it hback q q'
    have hend := unpackStep_again s prev it hback
    exact (unpackStep_endParse _ q it hend).trans (unpackStep_endParse _ q' it hend).symm

/-- The text of a list, as `To_String` writes it. -/
def listText (l : List Str) : Str := lbracket :: ([comma].intercalate l ++ [rbracket])

/-- An element `unpacking_list` gives back: it starts with a character of its own and holds
neither a comma nor a closing bracket. -/
def Unpackable (e : Str) : Prop :=
  (∃ c u, e = c :: u ∧ c ≠ lbrace ∧ c ≠ lbracket ∧ c ≠ ' ') ∧ comma ∉ e ∧ rbracket ∉ e

/-- One element and the character that ends it. -/
theorem run_element (vec : List Str) {e : Str} (h : Unpackable e) {d : UInt8}
    (hd : d = comma ∨ d = rbracket) (prev : Option UInt8) (t : Str) :
    unpackMachine.run (atElement vec) prev (e ++ d :: t) =
      unpackMachine.run (atElement (vec ++ [e])) none t := by
  obtain ⟨⟨c, u, rfl, hbrace, hbracket, hblank⟩, hcomma, hclose⟩ := h
  have hblind : ∀ v, unpackMachine.Blind (inElement vec v) := fun v =>
    unpack_blind (by simp [inElement])
  have hc : c ≠ comma := by rintro rfl; exact hcomma (by simp)
  have hfirst : unpackMachine.look (atElement vec) prev c = inElement vec [c] := by
    apply unpackMachine.look_once
    simp [unpackMachine, unpackStep, atElement, inElement, hbrace, hbracket, hblank, hc]
  have hmore : ∀ v, ∀ a ∈ u, unpackMachine.look (inElement vec v) none a =
      inElement vec (v ++ [a]) := by
    intro v a ha
    have h1 : a ≠ comma := by rintro rfl; exact hcomma (by simp [ha])
    have h2 : a ≠ rbracket := by rintro rfl; exact hclose (by simp [ha])
    apply unpackMachine.look_once
    simp [unpackMachine, unpackStep, inElement, h1, h2]
  have hend : unpackMachine.look (inElement vec (c :: u)) none d = atElement (vec ++ [c :: u]) := by
    have hback : unpackMachine.step (inElement vec (c :: u)) none d =
        (⟨.endParse, vec, c :: u, 0, 0⟩, true) := by
      show unpackStep (inElement vec (c :: u)) none d = _
      rw [unpackStep]
      simp only [inElement, if_pos hd]
    rw [unpackMachine.look_again hback]
    rfl
  rw [List.cons_append, unpackMachine.run_step hfirst (hblind _),
    unpackMachine.run_collect _ hblind hmore, List.singleton_append,
    unpackMachine.run_step hend (unpack_blind (by simp [atElement]))]

theorem run_elements (l : List Str) : ∀ (e : Str) (vec : List Str) (prev : Option UInt8),
    (∀ x ∈ e :: l, Unpackable x) →
    (unpackMachine.run (atElement vec) prev ([comma].intercalate (e :: l) ++ [rbracket])).vec =
      vec ++ e :: l := by
  induction l with
  | nil =>
    intro e vec prev h
    rw [List.intercalate_singleton, run_element vec (h e (by simp)) (.inr rfl)]
    rfl
  | cons x l ih =>
    intro e vec prev h
    rw [List.intercalate_cons_cons, List.append_assoc, List.append_assoc, List.singleton_append,
      run_element vec (h e (by simp)) (.inl rfl), ih x _ none fun y hy => h y (by simp [hy]),
      List.append_assoc]
    rfl

/-- **`unpacking_list` undoes the text of a list** whose elements it can tell apart. -/
theorem unpackingList_listText (l : List Str) (h : ∀ e ∈ l, Unpackable e) :
    unpackingList (listText l) = l := by
  cases l with
  | nil => rfl
  | cons e l => exact run_elements l e [] (some lbracket) h

end Rojcpp.Json
