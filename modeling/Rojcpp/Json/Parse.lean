import Rojcpp.Cpp.Text
import Rojcpp.Lib.Scan

/-!
# `Serializable::parse`

The character machine that cuts the text of a JSON object into keys and values.  Its index
steps back by one whenever a value ends, so the character that ends a value is looked at again
in the state `end_parse`, which stores the pair and does nothing else.

A value is stored as the text it has in the input, quotes included.
-/

namespace Rojcpp.Json

open Rojcpp.Lib

/-- The byte `"`. -/
abbrev dquote : UInt8 := '"'

/-- The byte `\`. -/
abbrev bslash : UInt8 := '\\'

/-- The byte `,`. -/
abbrev comma : UInt8 := ','

/-- The byte `:`. -/
abbrev colon : UInt8 := ':'

/-- The byte `\x7b`, which opens an object. -/
abbrev lbrace : UInt8 := 123

/-- The byte `\x7d`, which closes an object. -/
abbrev rbrace : UInt8 := 125

/-- The byte `[`. -/
abbrev lbracket : UInt8 := '['

/-- The byte `]`. -/
abbrev rbracket : UInt8 := ']'

/-- A string in quotes. -/
def quoted (body : Str) : Str := dquote :: body ++ [dquote]

/-- `isBlankChar`. -/
def isBlankChar (c : UInt8) : Bool := c == 9 || c == 10 || c == 13 || c == ' '

/-- A character `std::to_string` writes for a number. -/
def isNumberChar (c : UInt8) : Bool := isDigit c || c == '-'

theorem ne_of_isNumberChar {c d : UInt8} (hc : isNumberChar c = true)
    (hd : isNumberChar d = false) :
    c ≠ d := by
  rintro rfl
  rw [hc] at hd
  cases hd

theorem toStringInt_chars (n : Int32) :
    toStringInt n ≠ [] ∧ ∀ c ∈ toStringInt n, isNumberChar c = true := by
  refine ⟨decimalInt_ne_nil _, fun c hc => ?_⟩
  rw [isNumberChar, Bool.or_eq_true, beq_iff_eq]
  exact decimalInt_mem hc

/-- The map of a `config`, in the order in which its keys were first stored. -/
abbrev Config := List (Str × Str)

/-- `key_value[key] = value`. -/
def Config.set : Config → Str → Str → Config
  | [], key, value => [(key, value)]
  | e :: conf, key, value =>
    if e.1 = key then (key, value) :: conf else e :: Config.set conf key value

/-- Store a list of pairs. -/
def Config.setAll (conf : Config) (es : List (Str × Str)) : Config :=
  es.foldl (fun conf e => conf.set e.1 e.2) conf

theorem set_of_new (conf : Config) (key value : Str) (h : key ∉ conf.map Prod.fst) :
    conf.set key value = conf ++ [(key, value)] := by
  induction conf with
  | nil => rfl
  | cons e conf ih =>
    rw [List.map_cons, List.mem_cons, not_or] at h
    rw [Config.set, if_neg (Ne.symm h.1), ih h.2]
    rfl

/-- Different keys are all kept, in the order in which they come. -/
theorem setAll_eq_append (es : List (Str × Str)) : ∀ conf : Config,
    (conf.map Prod.fst ++ es.map Prod.fst).Nodup → conf.setAll es = conf ++ es := by
  induction es with
  | nil => intro conf _; rw [List.append_nil]; rfl
  | cons e es ih =>
    intro conf hnodup
    have hnew : e.1 ∉ conf.map Prod.fst := by
      rw [List.nodup_append] at hnodup
      intro hmem
      exact hnodup.2.2 _ hmem _ (by simp) rfl
    rw [Config.setAll, List.foldl_cons, ← Config.setAll, set_of_new conf e.1 e.2 hnew, ih,
      List.append_assoc]
    · rfl
    · rw [List.map_append, List.append_assoc]
      exact hnodup

/-- The states of the machine. -/
inductive State where
  | init
  | parseValue
  | parseStruct
  | parseFundamental
  | parseIterable
  | parseString
  | endParse
  deriving DecidableEq, Repr

/-- The variables of the loop.  The layers are `int`s and stand here as integers: a pass changes
them by one at most, so that no text of fewer than `2 ^ 31` bytes takes them out of range. -/
structure Parser where
  state : State
  key : Str
  value : Str
  nestedStructLayer : ℤ
  nestedIterableLayer : ℤ
  conf : Config
  deriving DecidableEq, Repr

/-- One pass through the loop's body at the character `it`; `prev` is `json[i-1]`, absent at
index 0.  The second component says whether the body did `--i`. -/
def parseStep (s : Parser) (prev : Option UInt8) (it : UInt8) : Parser × Bool :=
  match s.state with
  | .init =>
    if it = colon then ({ s with state := .parseValue }, false)
    else if isBlankChar it = false ∧ it ≠ comma ∧ it ≠ lbrace ∧ it ≠ dquote then
      ({ s with key := s.key ++ [it] }, false)
    else (s, false)
  | .parseValue =>
    if isBlankChar it = true then (s, false)
    else if it = lbrace then
      ({ s with
          value := s.value ++ [it]
          nestedStructLayer := s.nestedStructLayer + 1
          state := .parseStruct }, false)
    else if it = lbracket then
      ({ s with
          value := s.value ++ [it]
          nestedIterableLayer := s.nestedIterableLayer + 1
          state := .parseIterable }, false)
    else if it = dquote then
      ({ s with value := s.value ++ [it], state := .parseString }, false)
    else ({ s with value := s.value ++ [it], state := .parseFundamental }, false)
  | .parseString =>
    let s := { s with value := s.value ++ [it] }
    if it = dquote ∧ prev.any (fun c => c != bslash) = true then
      ({ s with state := .endParse }, true)
    else (s, false)
  | .parseFundamental =>
    if it = comma ∨ it = rbrace ∨ it = dquote ∨ isBlankChar it = true then
      let s := if it = dquote then { s with value := s.value ++ [it] } else s
      ({ s with state := .endParse }, true)
    else ({ s with value := s.value ++ [it] }, false)
  | .parseIterable =>
    if it = lbracket ∨ it = rbracket then
      let s := { s with
        nestedIterableLayer := s.nestedIterableLayer + if it = rbracket then -1 else 1
        value := s.value ++ [it] }
      if s.nestedIterableLayer = 0 then ({ s with state := .endParse }, true) else (s, false)
    else ({ s with value := s.value ++ [it] }, false)
  | .parseStruct =>
    if it = lbrace ∨ it = rbrace then
      let s := { s with
        nestedStructLayer := s.nestedStructLayer + if it = rbrace then -1 else 1
        value := s.value ++ [it] }
      if s.nestedStructLayer = 0 then ({ s with state := .endParse }, true) else (s, false)
    else ({ s with value := s.value ++ [it] }, false)
  | .endParse =>
    ({ s with state := .init, conf := s.conf.set s.key s.value, key := [], value := [] }, false)

/-- The index steps back only into `end_parse`, and `end_parse` never steps back. -/
theorem parseStep_again (s : Parser) (prev : Option UInt8) (it : UInt8)
    (h : (parseStep s prev it).2 = true) : (parseStep s prev it).1.state = .endParse := by
  rw [parseStep] at h ⊢
  cases hstate : s.state with
  | init => grind
  | parseValue => grind
  | parseStruct => grind
  | parseFundamental => grind
  | parseIterable => grind
  | parseString => grind
  | endParse => rw [hstate] at h; cases h

theorem parseStep_endParse (s : Parser) (prev : Option UInt8) (it : UInt8)
    (h : s.state = .endParse) : parseStep s prev it =
      ({ s with state := .init, conf := s.conf.set s.key s.value, key := [], value := [] },
        false) := by
  rw [parseStep, h]

/-- Only a quote in `parse_string` makes use of the character behind. -/
theorem parseStep_prev {s : Parser} {it : UInt8} (h : ¬(s.state = .parseString ∧ it = dquote))
    (prev prev' : Option UInt8) : parseStep s prev it = parseStep s prev' it := by
  rw [parseStep, parseStep]
  cases hstate : s.state with
  | parseString =>
    have hit : it ≠ dquote := fun hit => h ⟨hstate, hit⟩
    show (if it = dquote ∧ _ then _ else _) = if it = dquote ∧ _ then _ else _
    rw [if_neg fun hboth => hit hboth.1, if_neg fun hboth => hit hboth.1]
  | init => rfl
  | parseValue => rfl
  | parseStruct => rfl
  | parseFundamental => rfl
  | parseIterable => rfl
  | endParse => rfl

/-- The machine of `parse`. -/
def parseMachine : Scanner Parser UInt8 where
  step := parseStep
  twice s prev it h := by rw [parseStep_endParse _ _ _ (parseStep_again s prev it h)]

/-- The machine before the first character. -/
def Parser.start : Parser := ⟨.init, [], [], 0, 0, []⟩

/-- What leaves `parse` instead of a `config`: the exception that names the missing delimiter, or
undefined behaviour. -/
inductive ParseFault where
  | delimiter (ch : UInt8)
  | undefined
  deriving DecidableEq, Repr

/-- Remove blanks at both ends. -/
def trimBlank (json : Str) : Str :=
  ((json.dropWhile isBlankChar).reverse.dropWhile isBlankChar).reverse

/-- `Serializable::parse`.  `json.front()` on a text of blanks only is undefined. -/
def parse (json : Str) : Except ParseFault Config :=
  let json := trimBlank json
  match json with
  | [] => .error .undefined
  | front :: _ =>
    if front ≠ lbrace then .error (.delimiter lbrace)
    else if json.getLast? ≠ some rbrace then .error (.delimiter rbrace)
    else .ok (parseMachine.run Parser.start none json).conf

end Rojcpp.Json
