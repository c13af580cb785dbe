import Rojcpp.Lib.SqlLexer
import Rojcpp.Sql.Query

/-!
# The statements of the user and solution tables

The statements `UserTable` and `judgeTable` send, with the values they feed, and the question
which of them keep their shape.  A statement keeps its shape when MySQL reads it as the token
sequence of its template, with each quoted mark turned into one literal that holds the bound
string (`LiteralsIntact`).

`bind` escapes nothing, so a bound string keeps the shape exactly when it is `verbatim`: free of
single quotes, and of backslashes other than those in front of `%` or `_`.  This is proved for
the four statements that paste a string between quotes: once for a template that is given as
pieces, and from that for each of them.
-/

namespace Rojcpp.Sql

open Rojcpp.Lib

/-! ### The statements -/

/-- The statement of `UserTable::findByNameAndPasswd`. -/
def findByNameAndPasswdTemplate : Str :=
  ascii "select id,nickname,email from users where username = '?' and password = '?';"

/-- What `UserTable::findByNameAndPasswd` sends. -/
def findByNameAndPasswd (username password : Str) : Except Str Str :=
  (Query.new findByNameAndPasswdTemplate).feed [.str username, .str password] >>= Query.getQuery

/-- The statement of `judgeTable::add_solutions`. -/
def addSolutionsTemplate : Str :=
  ascii "insert into solutions (owner_id,problem_id,lang)values(?,?,'?') RETURNING id;"

/-- What `judgeTable::add_solutions` sends. -/
def addSolutions (ownerId : UInt64) (problemId : Str) (langInt : Int32) : Except Str Str :=
  (Query.new addSolutionsTemplate).feed [.ull ownerId, .str problemId, .int langInt] >>=
    Query.getQuery

/-- The statement of `judgeTable::add_solution_full_result`. -/
def addSolutionFullResultTemplate : Str :=
  ascii "insert into solution_full_results(solution_id) values (?)"

/-- What `judgeTable::add_solution_full_result` sends. -/
def addSolutionFullResult (solutionId : UInt64) : Except Str Str :=
  (Query.new addSolutionFullResultTemplate).feed [.ull solutionId] >>= Query.getQuery

/-- The statement of `judgeTable::add_solution_codes`. -/
def addSolutionCodesTemplate : Str :=
  ascii "insert into solution_codes (solution_id,code) values (?,'?');"

/-- What `judgeTable::add_solution_codes` sends. -/
def addSolutionCodes (solutionId : UInt64) (code : Str) : Except Str Str :=
  (Query.new addSolutionCodesTemplate).feed [.ull solutionId, .str code] >>= Query.getQuery

/-- The first statement of `judgeTable::update_solution`. -/
def updateSolutionTemplate : Str :=
  ascii ("UPDATE solutions SET result = ?, time_used = ?,memory_used = ?,mini_result = '?'," ++
    "score = ? WHERE id = ?;")

/-- The first statement `judgeTable::update_solution` sends. -/
def updateSolution (solutionId : Str) (result : Int32) (timeUsed memoryUsed : UInt64)
    (score : Int32) (miniResult : Str) : Except Str Str :=
  (Query.new updateSolutionTemplate).feed
    [.int result, .ull timeUsed, .ull memoryUsed, .str miniResult, .int score, .str solutionId]
    >>= Query.getQuery

/-- The second statement of `judgeTable::update_solution`. -/
def updateFullResultTemplate : Str :=
  ascii "UPDATE solution_full_results SET data = '?'where solution_id = ?;"

/-- The second statement `judgeTable::update_solution` sends. -/
def updateFullResult (solutionId fullResult : Str) : Except Str Str :=
  (Query.new updateFullResultTemplate).feed [.str fullResult, .str solutionId] >>= Query.getQuery

/-! ### The token sequence of a template -/

/-- The token sequence of a template behind the text `acc`: a quoted mark is one literal that
holds its parameter, an unquoted mark is the text of its parameter. -/
def templateTokens (acc : Str) : Str → List Str → List Token
  | [], _ => lex acc
  | c :: d :: e :: s, ps =>
    if c = quote ∧ d = mark ∧ e = quote then
      lex acc ++ .str (ps.headD []) :: templateTokens [] s ps.tail
    else if c = mark then templateTokens (acc ++ ps.headD []) (d :: e :: s) ps.tail
    else templateTokens (acc ++ [c]) (d :: e :: s) ps
  | c :: s, ps =>
    if c = mark then templateTokens (acc ++ ps.headD []) s ps.tail
    else templateTokens (acc ++ [c]) s ps

/-- The statement is read as its template with literals that hold the bound strings. -/
def LiteralsIntact (template : Str) (params : List Str) (sent : Except Str Str) : Prop :=
  ∃ text, sent = .ok text ∧ lex text = templateTokens [] template params

/-- A statement with a known text keeps its shape when the text has the template's tokens. -/
theorem literalsIntact_ok (template text : Str) (params : List Str) :
    LiteralsIntact template params (.ok text) ↔
      lex text = templateTokens [] template params :=
  ⟨fun ⟨_, ht, h⟩ => Except.ok.inj ht ▸ h, fun h => ⟨text, rfl, h⟩⟩

/-- A stretch of a template without quotes and marks. -/
def plainStretch (s : Str) : Bool := s.all fun c => c != quote && c != mark

theorem mark_ne_quote : mark ≠ quote := by decide

theorem templateTokens_quoted (acc s : Str) (ps : List Str) :
    templateTokens acc (quote :: mark :: quote :: s) ps =
      lex acc ++ .str (ps.headD []) :: templateTokens [] s ps.tail := by
  rw [templateTokens, if_pos ⟨rfl, rfl, rfl⟩]

theorem templateTokens_mark (acc s : Str) (ps : List Str) :
    templateTokens acc (mark :: s) ps = templateTokens (acc ++ ps.headD []) s ps.tail := by
  match s with
  | [] => simp [templateTokens]
  | [d] => simp [templateTokens]
  | d :: e :: s => simp [templateTokens, mark_ne_quote]

theorem templateTokens_plain (acc s : Str) (c : UInt8) (ps : List Str) (hq : c ≠ quote)
    (hm : c ≠ mark) : templateTokens acc (c :: s) ps = templateTokens (acc ++ [c]) s ps := by
  match s with
  | [] => simp [templateTokens, hm]
  | [d] => simp [templateTokens, hm]
  | d :: e :: s => simp [templateTokens, hm, hq]

theorem templateTokens_stretch (s t : Str) (ps : List Str) (hs : plainStretch s = true) :
    ∀ acc, templateTokens acc (s ++ t) ps = templateTokens (acc ++ s) t ps := by
  induction s with
  | nil => simp
  | cons c s ih =>
    intro acc
    simp only [plainStretch, List.all_cons, Bool.and_eq_true, bne_iff_ne] at hs
    rw [List.cons_append, templateTokens_plain acc _ c ps hs.1.1 hs.1.2, ih (by exact hs.2),
      List.append_assoc, List.singleton_append]

theorem fillMarks_stretch (s t : Str) (ps : List Str) (hs : plainStretch s = true) :
    fillMarks (s ++ t) ps = s ++ fillMarks t ps := by
  induction s with
  | nil => rfl
  | cons c s ih =>
    simp only [plainStretch, List.all_cons, Bool.and_eq_true, bne_iff_ne] at hs
    rw [List.cons_append, fillMarks, if_neg hs.1.2, ih (by exact hs.2), List.cons_append]

theorem fillMarks_mark (s : Str) (ps : List Str) :
    fillMarks (mark :: s) ps = ps.headD [] ++ fillMarks s ps.tail := by
  rw [fillMarks, if_pos rfl]

theorem fillMarks_quote (s : Str) (ps : List Str) :
    fillMarks (quote :: s) ps = quote :: fillMarks s ps := by
  rw [fillMarks, if_neg (by decide)]

theorem updateSolutionTemplate_marks : getMarkSize updateSolutionTemplate = 6 := by decide

theorem updateFullResultTemplate_marks : getMarkSize updateFullResultTemplate = 2 := by decide

/-! ### The pieces of a template -/

/-- A stretch without quotes and marks, a mark, or a mark between quotes. -/
inductive Piece where
  | text (s : Str)
  | mark
  | literal

/-- What the template has for a piece. -/
def Piece.source : Piece → Str
  | .text s => s
  | .mark => [Sql.mark]
  | .literal => [quote, Sql.mark, quote]

/-- A text is a stretch. -/
def Piece.plain : Piece → Bool
  | .text s => plainStretch s
  | .mark => true
  | .literal => true

/-- The statement the pieces become. -/
def fillPieces : List Piece → List Str → Str
  | [], _ => []
  | .text s :: t, ps => s ++ fillPieces t ps
  | .mark :: t, ps => ps.headD [] ++ fillPieces t ps.tail
  | .literal :: t, ps => quote :: (ps.headD [] ++ quote :: fillPieces t ps.tail)

/-- Their tokens behind the text `acc`. -/
def pieceTokens (acc : Str) : List Piece → List Str → List Token
  | [], _ => lex acc
  | .text s :: t, ps => pieceTokens (acc ++ s) t ps
  | .mark :: t, ps => pieceTokens (acc ++ ps.headD []) t ps.tail
  | .literal :: t, ps => lex acc ++ .str (ps.headD []) :: pieceTokens [] t ps.tail

/-- The parameters between quotes. -/
def literalParams : List Piece → List Str → List Str
  | [], _ => []
  | .text _ :: t, ps => literalParams t ps
  | .mark :: t, ps => literalParams t ps.tail
  | .literal :: t, ps => ps.headD [] :: literalParams t ps.tail

/-- No text in front of a literal has a quote, and none behind one goes on with it. -/
def Framed (acc : Str) : List Piece → List Str → Prop
  | [], _ => True
  | .text s :: t, ps => Framed (acc ++ s) t ps
  | .mark :: t, ps => Framed (acc ++ ps.headD []) t ps.tail
  | .literal :: t, ps => quote ∉ acc ∧ PlainHead (fillPieces t ps.tail) ∧ Framed [] t ps.tail

theorem fillMarks_pieces (pieces : List Piece) : pieces.all Piece.plain = true →
    ∀ ps, fillMarks (pieces.flatMap Piece.source) ps = fillPieces pieces ps := by
  induction pieces with
  | nil => exact fun _ _ => rfl
  | cons piece t ih =>
    intro hplain ps
    rw [List.all_cons, Bool.and_eq_true] at hplain
    rw [List.flatMap_cons]
    cases piece with
    | text s =>
      rw [Piece.source, fillMarks_stretch s _ ps hplain.1, ih hplain.2, fillPieces]
    | mark =>
      rw [Piece.source, List.singleton_append, fillMarks_mark, ih hplain.2, fillPieces]
    | literal =>
      rw [Piece.source, List.cons_append, fillMarks_quote, List.cons_append, fillMarks_mark,
        List.singleton_append, fillMarks_quote, ih hplain.2, fillPieces]

theorem templateTokens_pieces (pieces : List Piece) : pieces.all Piece.plain = true →
    ∀ acc ps, templateTokens acc (pieces.flatMap Piece.source) ps = pieceTokens acc pieces ps := by
  induction pieces with
  | nil => exact fun _ _ _ => rfl
  | cons piece t ih =>
    intro hplain acc ps
    rw [List.all_cons, Bool.and_eq_true] at hplain
    rw [List.flatMap_cons]
    cases piece with
    | text s =>
      rw [Piece.source, templateTokens_stretch s _ ps hplain.1, ih hplain.2, pieceTokens]
    | mark =>
      rw [Piece.source, List.singleton_append, templateTokens_mark, ih hplain.2, pieceTokens]
    | literal =>
      rw [Piece.source, List.cons_append, List.cons_append, List.singleton_append,
        templateTokens_quoted, ih hplain.2, pieceTokens]

/-- The lexer finds the tokens of the pieces exactly when the literals are verbatim. -/
theorem lex_fillPieces (pieces : List Piece) : ∀ acc ps, Framed acc pieces ps →
    (lex (acc ++ fillPieces pieces ps) = pieceTokens acc pieces ps ↔
      ∀ p ∈ literalParams pieces ps, verbatim p = true) := by
  induction pieces with
  | nil =>
    intro acc ps _
    simp [fillPieces, pieceTokens, literalParams]
  | cons piece t ih =>
    intro acc ps hframed
    cases piece with
    | text s =>
      rw [fillPieces, ← List.append_assoc]
      exact ih (acc ++ s) ps hframed
    | mark =>
      rw [fillPieces, ← List.append_assoc]
      exact ih (acc ++ ps.headD []) ps.tail hframed
    | literal =>
      obtain ⟨hacc, hhead, hframed⟩ := hframed
      rw [fillPieces, pieceTokens, lex_paste_iff acc _ _ hacc hhead, literalParams,
        List.forall_mem_cons]
      exact and_congr_right fun _ => ih [] ps.tail hframed

/-- **A fed template keeps its shape** exactly when its literals are verbatim. -/
theorem literalsIntact_pieces {template : Str} {pieces : List Piece} (values : List SqlValue)
    (htemplate : template = pieces.flatMap Piece.source) (hplain : pieces.all Piece.plain = true)
    (hlen : values.length = getMarkSize template)
    (hframed : Framed [] pieces (values.map SqlValue.text)) :
    LiteralsIntact template (values.map SqlValue.text)
        ((Query.new template).feed values >>= Query.getQuery) ↔
      ∀ p ∈ literalParams pieces (values.map SqlValue.text), verbatim p = true := by
  rw [feed_getQuery template values hlen, htemplate, fillMarks_pieces pieces hplain,
    literalsIntact_ok, templateTokens_pieces pieces hplain]
  exact lex_fillPieces pieces [] _ hframed

/-! ### Which statements keep their shape -/

theorem quote_notMem_decimal (n : ℕ) : quote ∉ decimal n := fun h =>
  absurd (decimal_isDigit n quote h) (by decide)

theorem quote_notMem_toStringInt (x : Int32) : quote ∉ toStringInt x := by
  intro h
  rcases decimalInt_mem h with h | h
  · exact absurd h (by decide)
  · exact absurd h (by decide)

/-- The login statement keeps its shape exactly for a verbatim name and password. -/
theorem findByNameAndPasswd_intact (username password : Str) :
    LiteralsIntact findByNameAndPasswdTemplate [username, password]
        (findByNameAndPasswd username password) ↔
      verbatim username = true ∧ verbatim password = true := by
  let pieces : List Piece := [
    .text (ascii "select id,nickname,email from users where username = "), .literal,
    .text (ascii " and password = "), .literal, .text (ascii ";")]
  have htemplate : findByNameAndPasswdTemplate = pieces.flatMap Piece.source := by decide
  have hframed : Framed [] pieces [username, password] :=
    ⟨by decide, ⟨_, _, rfl, by decide, by decide⟩, by decide, ⟨_, _, rfl, by decide, by decide⟩,
      trivial⟩
  have hintact := literalsIntact_pieces [.str username, .str password] htemplate (by decide) rfl
    hframed
  refine hintact.trans ?_
  simp [pieces, literalParams, SqlValue.text]

/-- The statement that stores submitted code keeps its shape exactly for verbatim code. -/
theorem addSolutionCodes_intact (solutionId : UInt64) (code : Str) :
    LiteralsIntact addSolutionCodesTemplate [toStringULL solutionId, code]
        (addSolutionCodes solutionId code) ↔
      verbatim code = true := by
  let head := ascii "insert into solution_codes (solution_id,code) values ("
  let pieces : List Piece := [.text head, .mark, .text (ascii ","), .literal, .text (ascii ");")]
  have htemplate : addSolutionCodesTemplate = pieces.flatMap Piece.source := by decide
  have hpre : quote ∉ [] ++ head ++ toStringULL solutionId ++ ascii "," := by
    have hnum := quote_notMem_decimal solutionId.toNat
    simp only [List.mem_append, toStringULL, hnum]
    decide
  have hframed : Framed [] pieces [toStringULL solutionId, code] :=
    ⟨hpre, ⟨_, _, rfl, by decide, by decide⟩, trivial⟩
  have hintact := literalsIntact_pieces [.ull solutionId, .str code] htemplate (by decide) rfl
    hframed
  refine hintact.trans ?_
  simp [pieces, literalParams, SqlValue.text]

/-- The statement that stores a verdict keeps its shape exactly for a verbatim summary. -/
theorem updateSolution_intact (solutionId : Str) (result : Int32) (timeUsed memoryUsed : UInt64)
    (score : Int32) (miniResult : Str) :
    LiteralsIntact updateSolutionTemplate
        [toStringInt result, toStringULL timeUsed, toStringULL memoryUsed, miniResult,
          toStringInt score, solutionId]
        (updateSolution solutionId result timeUsed memoryUsed score miniResult) ↔
      verbatim miniResult = true := by
  let s₁ := ascii "UPDATE solutions SET result = "
  let s₂ := ascii ", time_used = "
  let s₃ := ascii ",memory_used = "
  let s₄ := ascii ",mini_result = "
  let pieces : List Piece := [.text s₁, .mark, .text s₂, .mark, .text s₃, .mark, .text s₄,
    .literal, .text (ascii ",score = "), .mark, .text (ascii " WHERE id = "), .mark,
    .text (ascii ";")]
  have htemplate : updateSolutionTemplate = pieces.flatMap Piece.source := by decide
  have hpre : quote ∉ [] ++ s₁ ++ toStringInt result ++ s₂ ++ toStringULL timeUsed ++ s₃ ++
      toStringULL memoryUsed ++ s₄ := by
    have hr := quote_notMem_toStringInt result
    have ht := quote_notMem_decimal timeUsed.toNat
    have hm := quote_notMem_decimal memoryUsed.toNat
    simp only [List.mem_append, toStringULL, hr, ht, hm]
    decide
  have hframed : Framed [] pieces [toStringInt result, toStringULL timeUsed,
      toStringULL memoryUsed, miniResult, toStringInt score, solutionId] :=
    ⟨hpre, ⟨_, _, rfl, by decide, by decide⟩, trivial⟩
  have hintact := literalsIntact_pieces [.int result, .ull timeUsed, .ull memoryUsed,
    .str miniResult, .int score, .str solutionId] htemplate (by decide)
    updateSolutionTemplate_marks.symm hframed
  refine hintact.trans ?_
  simp [pieces, literalParams, SqlValue.text]

/-- The statement that stores the full results keeps its shape exactly for a verbatim text. -/
theorem updateFullResult_intact (solutionId fullResult : Str) :
    LiteralsIntact updateFullResultTemplate [fullResult, solutionId]
        (updateFullResult solutionId fullResult) ↔
      verbatim fullResult = true := by
  let pieces : List Piece := [
    .text (ascii "UPDATE solution_full_results SET data = "), .literal,
    .text (ascii "where solution_id = "), .mark, .text (ascii ";")]
  have htemplate : updateFullResultTemplate = pieces.flatMap Piece.source := by decide
  have hframed : Framed [] pieces [fullResult, solutionId] :=
    ⟨by decide, ⟨_, _, rfl, by decide, by decide⟩, trivial⟩
  have hintact := literalsIntact_pieces [.str fullResult, .str solutionId] htemplate (by decide)
    updateFullResultTemplate_marks.symm hframed
  refine hintact.trans ?_
  simp [pieces, literalParams, SqlValue.text]

/-- **Which bound strings leave the statements intact.**  Each of the statements that paste a
string between quotes is read as its template with that string as a literal if and only if the
strings bound between quotes are verbatim. -/
theorem bound_literals_intact_iff (username password : Str) (newId : UInt64) (code : Str)
    (solutionId : Str) (result : Int32) (timeUsed memoryUsed : UInt64) (score : Int32)
    (miniResult fullResult : Str) :
    (LiteralsIntact findByNameAndPasswdTemplate [username, password]
        (findByNameAndPasswd username password) ↔
      verbatim username = true ∧ verbatim password = true) ∧
    (LiteralsIntact addSolutionCodesTemplate [toStringULL newId, code]
        (addSolutionCodes newId code) ↔ verbatim code = true) ∧
    (LiteralsIntact updateSolutionTemplate
        [toStringInt result, toStringULL timeUsed, toStringULL memoryUsed, miniResult,
          toStringInt score, solutionId]
        (updateSolution solutionId result timeUsed memoryUsed score miniResult) ↔
      verbatim miniResult = true) ∧
    (LiteralsIntact updateFullResultTemplate [fullResult, solutionId]
        (updateFullResult solutionId fullResult) ↔ verbatim fullResult = true) :=
  ⟨findByNameAndPasswd_intact username password, addSolutionCodes_intact newId code,
    updateSolution_intact solutionId result timeUsed memoryUsed score miniResult,
    updateFullResult_intact solutionId fullResult⟩

/-- A login whose password is `' or '1'='1` turns the condition on the password into another
condition. -/
theorem findByNameAndPasswd_injected :
    ¬ LiteralsIntact findByNameAndPasswdTemplate [ascii "root", ascii "' or '1'='1"]
      (findByNameAndPasswd (ascii "root") (ascii "' or '1'='1")) := by
  rw [findByNameAndPasswd_intact]
  decide

end Rojcpp.Sql
