import Mathlib.Data.Nat.Notation
import Mathlib.Data.Int.Notation
import Rojcpp.Json.UnpackingList
import Rojcpp.Lib.IndexLoop

/-!
# The character loops by their index

The loops of `Serializable::parse` and `unpacking_list` as they stand in the source, over an index
that the body steps back.  A pass records the positions it reads: the character at the index, and in
`parse_string` the one behind it.  `parse` asks for `i > 0` before it looks behind; `unpacking_list`
does not, and its look is safe because index 0 is passed over.

Both loops follow their machines, so they end, in at most two passes for a position, and compute
what the machines compute (`loops_well_stepped`).
-/

namespace Rojcpp.Json

open Rojcpp.Lib

/-- The character at an index. -/
def charAt (text : Str) (i : ℤ) : UInt8 := text.getD i.toNat 0

theorem charAt_of_getElem {text : Str} {k : ℕ} {c : UInt8} (h : text[k]? = some c) :
    charAt text k = c := by
  rw [charAt, Int.toNat_natCast, List.getD_eq_getElem?_getD, h]
  rfl

/-! ### `parse` -/

/-- The body of the loop of `parse`, where `i > 0 && json[i-1] != '\\'` is evaluated at a quote. -/
def parsePass (json : Str) : Parser → ℤ → Pass Parser :=
  parseMachine.pass (charAt json) fun s it i => s.state = .parseString ∧ it = dquote ∧ 0 < i

/-- The loop of `parse`. -/
def parseLoop (fuel : ℕ) (json : Str) : Option (Parser × Passes Parser) :=
  forLoop json.length (parsePass json) fuel Parser.start 0

/-- `parse` over its index: nothing when the fuel does not suffice, and else what the function does,
with the passes of the loop. -/
def parseIndexed (fuel : ℕ) (json : Str) : Option (Except ParseFault (Config × Passes Parser)) :=
  let json := trimBlank json
  match json with
  | [] => some (.error .undefined)
  | front :: _ =>
    if front ≠ lbrace then some (.error (.delimiter lbrace))
    else if json.getLast? ≠ some rbrace then some (.error (.delimiter rbrace))
    else (parseLoop fuel json).map fun r => .ok (r.1.conf, r.2)

theorem parsePass_follows (json : Str) : Follows parseMachine json (parsePass json) := by
  refine parseMachine.pass_follows (fun k a => charAt_of_getElem) ?_
  intro s a k hbehind
  refine parseStep_prev fun hquote => of_decide_eq_false hbehind ⟨hquote.1, hquote.2, ?_⟩
  omega

/-- The first pass of `parse` is in `init`, which neither looks behind nor steps back. -/
theorem parsePass_start (json : Str) :
    (parsePass json Parser.start 0).index = 0 ∧ (parsePass json Parser.start 0).reads = [0] ∧
      (parsePass json Parser.start 0).vars =
        parseMachine.look Parser.start none (charAt json 0) := by
  have hback : ∀ it, (parseStep Parser.start none it).2 = false := by
    intro it
    simp only [parseStep, Parser.start]
    split
    · rfl
    · split <;> rfl
  have hlook := parseMachine.look_once (Prod.ext rfl (hback (charAt json 0)))
  refine ⟨if_neg (Bool.not_eq_true _ ▸ hback _), rfl, hlook.symm⟩

/-! ### `unpacking_list` -/

/-- The body of the loop of `unpacking_list`, which does nothing at index 0 and asks for no bound
before it looks behind. -/
def unpackPass (serialized : Str) (s : Unpacker) (i : ℤ) : Pass Unpacker :=
  if i = 0 then ⟨s, i, [i]⟩
  else
    unpackMachine.pass (charAt serialized) (fun s it _ => s.state = .parseString ∧ it = dquote) s i

/-- The loop of `unpacking_list`, with `int length = serialized.size()`. -/
def unpackLoop (fuel : ℕ) (serialized : Str) : Option (Unpacker × Passes Unpacker) :=
  forLoop ((serialized.length : ℤ).bmod (2 ^ 32)) (unpackPass serialized) fuel (atElement []) 0

theorem unpackPass_follows (serialized : Str) :
    Follows unpackMachine serialized (unpackPass serialized) := by
  have hpass : Follows unpackMachine serialized (unpackMachine.pass (charAt serialized)
      fun s it _ => s.state = .parseString ∧ it = dquote) := by
    refine unpackMachine.pass_follows (fun k a => charAt_of_getElem) ?_
    intro s a k hbehind
    exact unpackStep_prev (of_decide_eq_false hbehind)
  refine hpass.of_succ (fun s k => if_neg (by omega)) ?_
  intro s i r hr
  rw [unpackPass] at hr
  split at hr
  · exact .inl (List.mem_singleton.mp hr)
  · exact unpackMachine.pass_reads _ _ s i r hr

/-! ### Both loops end -/

/-- **The loop of `parse` ends**, whatever its text, in two passes a position at most, and computes
what the machine does. -/
theorem parseLoop_well_stepped (json : Str) :
    ∃ ps, (∀ fuel, 2 * json.length ≤ fuel →
        parseLoop fuel json = some (parseMachine.run Parser.start none json, ps)) ∧
      WellStepped 0 json.length ps := by
  cases hjson : json with
  | nil => exact ⟨[], fun fuel _ => forLoop_done (Int.le_refl 0) fuel _, .nil _ _⟩
  | cons a post =>
    obtain ⟨hindex, hreads, hvars⟩ := parsePass_start json
    have hrun := (parsePass_follows json).forLoop_start hjson hindex (by simp [hreads])
    rw [hvars, show charAt json 0 = a by rw [hjson]; rfl] at hrun
    rw [← hjson]
    obtain ⟨ps, hrun, hps⟩ := hrun
    refine ⟨ps, fun fuel hfuel => (hrun fuel hfuel).trans ?_, hps⟩
    rw [hjson]
    rfl

/-- **The loop of `unpacking_list` ends** in the same way, on every text whose length is an
`int`. -/
theorem unpackLoop_well_stepped (serialized : Str) (hlength : serialized.length < 2 ^ 31) :
    ∃ s ps, (∀ fuel, 2 * serialized.length ≤ fuel →
        unpackLoop fuel serialized = some (s, ps)) ∧
      s.vec = unpackingList serialized ∧ WellStepped 0 serialized.length ps := by
  have hint : (serialized.length : ℤ).bmod (2 ^ 32) = serialized.length := by
    apply Int.bmod_eq_of_le <;> omega
  cases htext : serialized with
  | nil =>
    exact ⟨_, [], fun fuel _ => forLoop_done (Int.le_refl 0) fuel _, rfl, .nil _ _⟩
  | cons a post =>
    have hreads : ∀ r ∈ (unpackPass serialized (atElement []) 0).reads, r = 0 := by
      simp [unpackPass]
    obtain ⟨ps, hrun, hps⟩ := (unpackPass_follows serialized).forLoop_start htext rfl hreads
    rw [← htext]
    refine ⟨unpackMachine.run (atElement []) (some a) post, ps, fun fuel hfuel => ?_, ?_, hps⟩
    · rw [unpackLoop, hint]
      exact hrun fuel hfuel
    · rw [htext]
      rfl

theorem length_trimBlank_le (json : Str) : (trimBlank json).length ≤ json.length := by
  have hback := (List.dropWhile_sublist isBlankChar
    (l := (json.dropWhile isBlankChar).reverse)).length_le
  have hfront := (List.dropWhile_sublist isBlankChar (l := json)).length_le
  rw [List.length_reverse] at hback
  rw [trimBlank, List.length_reverse]
  exact hback.trans hfront

/-- `parse` over its index does what `parse` does, and its loop is entered or an exception is thrown
before it. -/
theorem parseIndexed_well_stepped (text : Str) :
    ∃ r, (∀ fuel, 2 * text.length ≤ fuel → parseIndexed fuel text = some r) ∧
      r.map (·.1) = parse text ∧
      ∀ conf ps, r = .ok (conf, ps) → WellStepped 0 (trimBlank text).length ps := by
  obtain ⟨ps, hrun, hps⟩ := parseLoop_well_stepped (trimBlank text)
  have hlength := length_trimBlank_le text
  simp only [parse, parseIndexed]
  generalize trimBlank text = json at hrun hps hlength
  cases json with
  | nil =>
    refine ⟨.error .undefined, fun _ _ => rfl, rfl, ?_⟩
    intro conf ps hok
    cases hok
  | cons front rest =>
    dsimp only
    by_cases hfront : front ≠ lbrace
    · refine ⟨.error (.delimiter lbrace), fun _ _ => if_pos hfront, (if_pos hfront).symm, ?_⟩
      intro conf ps hok
      cases hok
    · by_cases hback : (front :: rest).getLast? ≠ some rbrace
      · refine ⟨.error (.delimiter rbrace), ?_, ?_, ?_⟩
        · intro fuel hfuel
          rw [if_neg hfront, if_pos hback]
        · rw [if_neg hfront, if_pos hback]
          rfl
        · intro conf ps hok
          cases hok
      · refine ⟨.ok ((parseMachine.run Parser.start none (front :: rest)).conf, ps), ?_, ?_, ?_⟩
        · intro fuel hfuel
          rw [if_neg hfront, if_neg hback, hrun fuel (by omega)]
          rfl
        · rw [if_neg hfront, if_neg hback]
          rfl
        · intro conf ps' hok
          cases hok
          exact hps

/-- **The two loops end for every text**: no position is passed over more than twice, the index
never drops below zero, all that is read lies in the text, and the character behind is read at
index 1 at the earliest.  What they compute is what `parse` and `unpackingList` compute. -/
theorem loops_well_stepped (text : Str) (hlength : text.length < 2 ^ 31) :
    (∃ r, (∀ fuel, 2 * text.length ≤ fuel → parseIndexed fuel text = some r) ∧
        r.map (·.1) = parse text ∧
        ∀ conf ps, r = .ok (conf, ps) → WellStepped 0 (trimBlank text).length ps) ∧
      ∃ s ps, (∀ fuel, 2 * text.length ≤ fuel → unpackLoop fuel text = some (s, ps)) ∧
        s.vec = unpackingList text ∧ WellStepped 0 text.length ps := by
  exact ⟨parseIndexed_well_stepped text, unpackLoop_well_stepped text hlength⟩

/-- The text of an object with one pair. -/
def onePair : Str := lbrace :: quoted [107] ++ [colon, 49, rbrace]

theorem loops_well_stepped_onePair :
    (∃ r, (∀ fuel, 14 ≤ fuel → parseIndexed fuel onePair = some r) ∧
        r.map (·.1) = .ok [([107], [49])] ∧
        ∀ conf ps, r = .ok (conf, ps) → WellStepped 0 7 ps) ∧
      ∃ s ps, (∀ fuel, 14 ≤ fuel → unpackLoop fuel onePair = some (s, ps)) ∧
        s.vec = unpackingList onePair ∧ WellStepped 0 7 ps :=
  loops_well_stepped onePair (by decide)

end Rojcpp.Json
