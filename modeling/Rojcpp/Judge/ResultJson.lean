import Rojcpp.Judge.Result
import Rojcpp.Lib.JsonReader

/-!
# The JSON of a list of results

`dump_to_json` writes an array of objects by hand, with a comma behind every object whose index is
not the last one.  A JSON reader accepts the text for every list, gets back every field of every
result in order, and meets neither a single quote nor a backslash.
-/

namespace Rojcpp.Judge

open Rojcpp.Lib Rojcpp.Lib.JsonReader

/-- The loop of `dump_to_json` over `size` results, from the index `i` on. -/
def dumpFrom (size : ℕ) : ℕ → List Result → Str
  | _, [] => []
  | i, r :: rest =>
    r.toJson ++ (if i ≠ size - 1 then ascii "," else []) ++ dumpFrom size (i + 1) rest

/-- `dump_to_json` of a message. -/
def MessageResultJudge.dumpToJson (m : MessageResultJudge) : Str :=
  ascii "[" ++ dumpFrom m.results.length 0 m.results ++ ascii "]"

/-! ### What is meant -/

/-- The names and the numbers of the seven fields. -/
def Result.members (r : Result) : List (Str × ℤ) :=
  [(ascii "cpu_time", r.cpuTime.toInt), (ascii "real_time", r.realTime.toInt),
    (ascii "memory", r.memory.toInt), (ascii "signal", r.signal.toInt),
    (ascii "exit_code", r.exitCode.toInt), (ascii "error", r.error.toInt),
    (ascii "result", r.result.toInt)]

/-- The integer under a name of an object. -/
def intMember (name : Str) : JsonValue → Option ℤ
  | .object members =>
    match members.find? fun m => m.1 == name.map .byte with
    | some (_, .number q) => if q.den = 1 then some q.num else none
    | _ => none
  | _ => none

/-- The result an object stands for. -/
def Result.ofJson (v : JsonValue) : Option Result := do
  let cpuTime ← intMember (ascii "cpu_time") v
  let realTime ← intMember (ascii "real_time") v
  let memory ← intMember (ascii "memory") v
  let signal ← intMember (ascii "signal") v
  let exitCode ← intMember (ascii "exit_code") v
  let error ← intMember (ascii "error") v
  let result ← intMember (ascii "result") v
  return ⟨.ofInt cpuTime, .ofInt realTime, .ofInt memory, .ofInt signal, .ofInt exitCode,
    .ofInt error, .ofInt result⟩

/-- An object of numbers. -/
def numbersJson (ms : List (Str × ℤ)) : JsonValue :=
  .object (ms.map fun p => (p.1.map .byte, .number p.2))

/-! ### The separators -/

/-- Every object but the last has a comma behind it. -/
theorem dumpFrom_eq (size : ℕ) (rs : List Result) : ∀ i, i + rs.length = size →
    dumpFrom size i rs = resultsToJson rs := by
  induction rs with
  | nil => exact fun _ _ => rfl
  | cons r rs ih =>
    intro i hi
    rw [List.length_cons] at hi
    rw [dumpFrom, ih (i + 1) (by omega)]
    cases rs with
    | nil =>
      have hlast : ¬i ≠ size - 1 := by
        rw [List.length_nil] at hi
        omega
      rw [if_neg hlast, List.append_nil]
      exact List.append_nil _
    | cons r' rs =>
      have hmore : i ≠ size - 1 := by
        rw [List.length_cons] at hi
        omega
      rw [if_pos hmore]
      rfl

theorem dumpToJson_message (m : MessageResultJudge) : m.dumpToJson = dumpToJson m.results := by
  rw [MessageResultJudge.dumpToJson, dumpFrom_eq _ _ 0 (Nat.zero_add _)]
  rfl

theorem resultsToJson_eq (rs : List Result) :
    resultsToJson rs = commaSep (rs.map Result.toJson) := by
  induction rs with
  | nil => rfl
  | cons r rs ih =>
    cases rs with
    | nil => rfl
    | cons r' rs =>
      show r.toJson ++ ascii "," ++ resultsToJson (r' :: rs) = _
      rw [ih, List.append_assoc]
      rfl

theorem dumpToJson_eq (rs : List Result) : dumpToJson rs = arrayText (rs.map Result.toJson) := by
  rw [dumpToJson, resultsToJson_eq]
  rfl

/-! ### One result -/

/-- The text of a result is an object of its numbers. -/
theorem toJson_eq (r : Result) :
    r.toJson = objectText (r.members.map fun p => (p.1, decimalInt p.2)) := by
  have hfirst : ascii "\x7b\"cpu_time\":" = 123 :: 34 :: (ascii "cpu_time" ++ [34, 58]) := by decide
  have hrealTime : ascii ",\"real_time\":" =
      44 :: 34 :: (ascii "real_time" ++ [34, 58]) := by decide
  have hmemory : ascii ",\"memory\":" = 44 :: 34 :: (ascii "memory" ++ [34, 58]) := by decide
  have hsignal : ascii ",\"signal\":" = 44 :: 34 :: (ascii "signal" ++ [34, 58]) := by decide
  have hexitCode : ascii ",\"exit_code\":" =
      44 :: 34 :: (ascii "exit_code" ++ [34, 58]) := by decide
  have herror : ascii ",\"error\":" = 44 :: 34 :: (ascii "error" ++ [34, 58]) := by decide
  have hresult : ascii ",\"result\":" = 44 :: 34 :: (ascii "result" ++ [34, 58]) := by decide
  have hlast : ascii "\x7d" = [125] := by decide
  rw [Result.toJson, hfirst, hrealTime, hmemory, hsignal, hexitCode, herror, hresult, hlast]
  simp only [Result.members, objectText, memberText, commaSep, List.map_cons, List.map_nil,
    toStringInt, toStringLong, List.append_assoc, List.cons_append, List.nil_append]

theorem members_plain (r : Result) : ∀ p ∈ r.members, PlainName p.1 := by
  have hnames : ∀ name ∈ r.members.map Prod.fst,
      (name.all fun c => 32 ≤ c && c != 34 && c != 92) = true := List.all_eq_true.mp rfl
  intro p hp c hc
  have hall := List.all_eq_true.mp (hnames p.1 (List.mem_map_of_mem hp)) c hc
  simp only [Bool.and_eq_true, decide_eq_true_eq, bne_iff_ne] at hall
  exact ⟨hall.1.1, hall.1.2, hall.2⟩

/-- A result is read as the object of its numbers. -/
theorem reads_toJson (r : Result) : Reads r.toJson (numbersJson r.members) := by
  have hobject := reads_object (r.members.map fun p => (p.1, decimalInt p.2, .number p.2))
    fun q hq => by
      obtain ⟨p, hp, rfl⟩ := List.mem_map.mp hq
      exact ⟨members_plain r p hp, reads_int p.2⟩
  rw [List.map_map, List.map_map] at hobject
  rw [toJson_eq]
  exact hobject

theorem intMember_numbers (name : Str) (ms : List (Str × ℤ)) :
    intMember name (numbersJson ms) = (ms.find? fun p => p.1 == name).map Prod.snd := by
  have hfind : (ms.map fun p => (p.1.map JsonChar.byte, JsonValue.number p.2)).find?
      (fun m => m.1 == name.map .byte) =
      (ms.find? fun p => p.1 == name).map fun p => (p.1.map JsonChar.byte, .number p.2) := by
    rw [List.find?_map]
    congr 2
    refine funext fun p => ?_
    have hinjective : Function.Injective (List.map JsonChar.byte) :=
      List.map_injective_iff.mpr fun a b h => by cases h; rfl
    show (p.1.map JsonChar.byte == name.map JsonChar.byte) = (p.1 == name)
    rw [Bool.eq_iff_iff, beq_iff_eq, beq_iff_eq]
    exact hinjective.eq_iff
  simp only [numbersJson, intMember, hfind]
  cases ms.find? fun p => p.1 == name with
  | none => rfl
  | some p =>
    show (if ((p.2 : ℤ) : ℚ).den = 1 then some ((p.2 : ℤ) : ℚ).num else none) = some p.2
    rw [Rat.den_intCast, if_pos rfl, Rat.num_intCast]

/-- **Every field of a result is recovered.** -/
theorem ofJson_members (r : Result) : Result.ofJson (numbersJson r.members) = some r := by
  simp only [Result.ofJson, intMember_numbers]
  show some (⟨.ofInt r.cpuTime.toInt, .ofInt r.realTime.toInt, .ofInt r.memory.toInt,
    .ofInt r.signal.toInt, .ofInt r.exitCode.toInt, .ofInt r.error.toInt,
    .ofInt r.result.toInt⟩ : Result) = some r
  simp only [Int32.ofInt_toInt, Int64.ofInt_toInt]

/-! ### The whole text -/

/-- The text of a list of results, read. -/
theorem readJson_dumpToJson (rs : List Result) :
    readJson (dumpToJson rs) = some (.array (rs.map fun r => numbersJson r.members)) := by
  have harray := reads_array (rs.map fun r => (r.toJson, numbersJson r.members)) fun p hp => by
    obtain ⟨r, -, rfl⟩ := List.mem_map.mp hp
    exact reads_toJson r
  rw [List.map_map, List.map_map] at harray
  rw [dumpToJson_eq]
  exact readJson_eq harray

/-- A byte that is neither a single quote nor a backslash. -/
def isHarmless (c : UInt8) : Bool := c != 39 && c != 92

theorem harmless_decimalInt (z : ℤ) : ∀ c ∈ decimalInt z, isHarmless c = true := by
  intro c hc
  rw [isHarmless, Bool.and_eq_true, bne_iff_ne, bne_iff_ne]
  constructor
  · rintro rfl
    exact (decimalInt_mem hc).elim (fun h => absurd h (by decide)) fun h => absurd h (by decide)
  · rintro rfl
    exact (decimalInt_mem hc).elim (fun h => absurd h (by decide)) fun h => absurd h (by decide)

theorem harmless_commaSep (ts : List Str) (h : ∀ t ∈ ts, ∀ c ∈ t, isHarmless c = true) :
    ∀ c ∈ commaSep ts, isHarmless c = true := by
  induction ts with
  | nil => exact fun c hc => absurd hc List.not_mem_nil
  | cons t ts ih =>
    obtain ⟨ht, hts⟩ := List.forall_mem_cons.mp h
    cases ts with
    | nil => exact ht
    | cons t' ts =>
      show ∀ c ∈ t ++ 44 :: commaSep (t' :: ts), _
      exact List.forall_mem_append.mpr ⟨ht, List.forall_mem_cons.mpr ⟨rfl, ih hts⟩⟩

/-- **The text needs no escapes** in a SQL string. -/
theorem harmless_dumpToJson (rs : List Result) : ∀ c ∈ dumpToJson rs, isHarmless c = true := by
  have hnames : ∀ (r : Result), ∀ p ∈ r.members, ∀ c ∈ p.1, isHarmless c = true := by
    intro r p hp
    have hall : ∀ name ∈ r.members.map Prod.fst, name.all isHarmless = true :=
      List.all_eq_true.mp rfl
    exact List.all_eq_true.mp (hall p.1 (List.mem_map_of_mem hp))
  have hsingle : ∀ b : UInt8, isHarmless b = true → ∀ c ∈ [b], isHarmless c = true :=
    fun b hb c hc => by rw [List.mem_singleton.mp hc]; exact hb
  rw [dumpToJson_eq, arrayText]
  refine List.forall_mem_append.mpr ⟨List.forall_mem_cons.mpr ⟨rfl, ?_⟩, hsingle 93 rfl⟩
  refine harmless_commaSep _ fun t ht => ?_
  obtain ⟨r, -, rfl⟩ := List.mem_map.mp ht
  rw [toJson_eq, objectText]
  refine List.forall_mem_append.mpr ⟨List.forall_mem_cons.mpr ⟨rfl, ?_⟩, hsingle 125 rfl⟩
  refine harmless_commaSep _ fun u hu => ?_
  obtain ⟨q, hq, rfl⟩ := List.mem_map.mp hu
  obtain ⟨p, hp, rfl⟩ := List.mem_map.mp hq
  refine List.forall_mem_append.mpr ⟨List.forall_mem_cons.mpr ⟨rfl, hnames r p hp⟩, ?_⟩
  exact List.forall_mem_cons.mpr ⟨rfl, List.forall_mem_cons.mpr ⟨rfl, harmless_decimalInt p.2⟩⟩

/-- **The dumped results are recovered.**  For every message, a JSON reader accepts the text
`dump_to_json` gives as an array of objects, which stand for the results of the message one by one,
and the text holds no single quote and no backslash. -/
theorem dump_to_json_recovered (m : MessageResultJudge) :
    (∃ values, readJson m.dumpToJson = some (.array values) ∧
      (∀ v ∈ values, ∃ members, v = .object members) ∧
      values.map Result.ofJson = m.results.map some) ∧
    ∀ c ∈ m.dumpToJson, c ≠ '\'' ∧ c ≠ '\\' := by
  rw [dumpToJson_message]
  refine ⟨⟨_, readJson_dumpToJson m.results, fun v hv => ?_, ?_⟩, fun c hc => ?_⟩
  · obtain ⟨r, -, rfl⟩ := List.mem_map.mp hv
    exact ⟨_, rfl⟩
  · rw [List.map_map]
    exact List.map_congr_left fun r _ => ofJson_members r
  · have hharmless := harmless_dumpToJson m.results c hc
    rw [isHarmless, Bool.and_eq_true, bne_iff_ne, bne_iff_ne] at hharmless
    exact hharmless

end Rojcpp.Judge
