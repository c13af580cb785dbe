import Rojcpp.Backend.Summary
import Rojcpp.Backend.Outcome
import Rojcpp.Json.JudgeEntiy
import Rojcpp.Judge.Exchange
import Rojcpp.Sql.Rows

/-!
# The way of a submission

A client posts a submission as JSON.  `handleJudgeMsg` reads it, inserts a row into each of three
tables, and sends the judge a message whose key is the number of the first row.  The judge's worker
answers with messages under that key, and the result handler stores what they say in the rows the
key names.

The parts are composed here, from the text of the request to the row: the submissions that are
posted one after the other come to the queue of the judge as they were meant
(`submissions_reach_judge`), and what the worker finds out comes back to the rows that were inserted
for them (`outcome_reaches_row`).
-/

namespace Rojcpp.Backend

open Rojcpp.Lib Rojcpp.Judge Rojcpp.Json

/-! ### The route -/

/-- `lang_to_int`. -/
def langToInt (langName : Str) : Int32 :=
  if langName = ascii "cpp" ∨ langName = ascii "c++" then 1 else 0

/-- `judgeTable::add_solutions`: the number of the new row, which comes through an `unsigned`. -/
def addSolutions (b : Sql.Backend) (ownerId : UInt64) (problemId : Str) (langInt : Int32) :
    Except Sql.Failure UInt64 := do
  let solutionId ← Sql.execValue .ull b (Sql.addSolutions ownerId problemId langInt)
  return (UInt64.toUInt32 solutionId).toUInt64

/-- The number of the user all submissions are stored for. -/
def submissionOwner : UInt64 := 62

/-- `handleJudgeMsg` behind the reading of the request: the rows, and the message for the judge. -/
def submit (b : Sql.Backend) (e : JudgeEntiy) : Except Sql.Failure MessageSendJudge := do
  let solutionId ← addSolutions b submissionOwner e.pid (langToInt e.language)
  Sql.execVoid b (Sql.addSolutionCodes solutionId e.code)
  Sql.execVoid b (Sql.addSolutionFullResult solutionId)
  return ⟨toStringULL solutionId, e.code, e.language, e.pid, e.timeLimit, e.memoryLimit⟩

/-- The `judgeEntiy` of an object of the library. -/
def judgeEntiyOf : Json.Value → Option JudgeEntiy
  | .object _ (.cons _ (.string language) (.cons _ (.string code) (.cons _ (.int memoryLimit)
      (.cons _ (.int timeLimit) (.cons _ (.string pid) .nil))))) =>
    some ⟨language, code, pid, memoryLimit, timeLimit⟩
  | _ => none

/-- `handleJudgeMsg`: the message it sends.  Where `loads` does not return an object, its caller
goes on with none. -/
def handleJudgeMsg (o : MapOrder) (junk m₀ t₀ : Int32) (b : Sql.Backend) (body : Str) :
    Except Sql.Failure MessageSendJudge :=
  match loads o junk (JudgeEntiy.fresh m₀ t₀).object body with
  | .returned obj =>
    match judgeEntiyOf obj with
    | some e => submit b e
    | none => .error .undefined
  | .noReturn => .error .undefined
  | .undefined => .error .undefined

/-! ### What is read -/

/-- A setter of the struct leaves it one. -/
theorem set_judgeEntiy {o : MapOrder} {junk : Int32} {e₀ : JudgeEntiy} {key str : Str}
    {v : Json.Value} (hv : e₀.fields.assign o junk key str = some (some v)) (e : JudgeEntiy) :
    ∃ e' : JudgeEntiy, e.fields.set key v = e'.fields := by
  simp only [JudgeEntiy.fields, Fields.assign, Json.Value.assign] at hv
  split at hv
  · next hkey =>
    obtain ⟨_, hs, rfl⟩ := Option.map_eq_some_iff.mp (Option.some.inj hv)
    obtain ⟨s, -, rfl⟩ := Option.map_eq_some_iff.mp hs
    exact ⟨{ e with language := s }, by rw [hkey]; rfl⟩
  split at hv
  · next hkey =>
    obtain ⟨_, hs, rfl⟩ := Option.map_eq_some_iff.mp (Option.some.inj hv)
    obtain ⟨s, -, rfl⟩ := Option.map_eq_some_iff.mp hs
    exact ⟨{ e with code := s }, by rw [hkey]; rfl⟩
  split at hv
  · next hkey =>
    cases hv
    exact ⟨{ e with memoryLimit := readInt junk str }, by rw [hkey]; rfl⟩
  split at hv
  · next hkey =>
    cases hv
    exact ⟨{ e with timeLimit := readInt junk str }, by rw [hkey]; rfl⟩
  split at hv
  · next hkey =>
    obtain ⟨_, hs, rfl⟩ := Option.map_eq_some_iff.mp (Option.some.inj hv)
    obtain ⟨s, -, rfl⟩ := Option.map_eq_some_iff.mp hs
    exact ⟨{ e with pid := s }, by rw [hkey]; rfl⟩
  · cases hv

theorem configToObject_judgeEntiy {o : MapOrder} {junk : Int32} {e₀ : JudgeEntiy}
    (es : List (Str × Str)) : ∀ (e : JudgeEntiy) (r : Fields × Bool),
    configToObject (fun key s => e₀.fields.assign o junk key s) e.fields es = some r →
      ∃ e' : JudgeEntiy, r.1 = e'.fields := by
  induction es with
  | nil =>
    intro e r h
    cases h
    exact ⟨e, rfl⟩
  | cons en es ih =>
    intro e r h
    rw [configToObject] at h
    split at h
    · exact ih e r h
    split at h
    · cases h
      exact ⟨e, rfl⟩
    · cases h
    · next v hv =>
      obtain ⟨e', he'⟩ := set_judgeEntiy hv e
      rw [he'] at h
      exact ih e' r h

/-- `loads` returns nothing but a `judgeEntiy`. -/
theorem loads_judgeEntiy {o : MapOrder} {junk : Int32} {e : JudgeEntiy} {body : Str}
    {obj : Json.Value} (h : loads o junk e.object body = .returned obj) :
    ∃ e' : JudgeEntiy, obj = e'.object := by
  rw [loads, JudgeEntiy.object, Json.Value.assign] at h
  cases hparse : parse body with
  | error f =>
    rw [hparse] at h
    cases f with
    | undefined => cases h
    | delimiter p => cases h
  | ok conf =>
    rw [hparse] at h
    simp only at h
    cases hrun : configToObject (fun key s => e.fields.assign o junk key s) e.fields
        (o.entries conf) with
    | none =>
      rw [hrun] at h
      cases h
    | some r =>
      obtain ⟨e', he'⟩ := configToObject_judgeEntiy _ e r hrun
      rw [hrun, Option.map_some, he'] at h
      cases hthrown : r.2 with
      | true =>
        rw [hthrown] at h
        cases h
      | false =>
        rw [hthrown] at h
        cases h
        exact ⟨e', rfl⟩

/-- A request whose text is read is a submission. -/
theorem handleJudgeMsg_returned {o : MapOrder} {junk m₀ t₀ : Int32} {body : Str} {obj : Json.Value}
    (h : loads o junk (JudgeEntiy.fresh m₀ t₀).object body = .returned obj) (b : Sql.Backend) :
    ∃ e : JudgeEntiy, obj = e.object ∧ handleJudgeMsg o junk m₀ t₀ b body = submit b e := by
  obtain ⟨e, rfl⟩ := loads_judgeEntiy h
  refine ⟨e, rfl, ?_⟩
  rw [handleJudgeMsg, h]
  rfl

/-! ### Submissions -/

/-- A submission as it is posted, with what the machine and the database bring along: the order of
the map `parse` fills, what an `int` holds before it is assigned, the answers of the database, and
the number it gives the row. -/
structure Submission where
  entiy : JudgeEntiy
  body : JsonText entiy
  order : MapOrder
  junk : Int32
  oldMemoryLimit : Int32
  oldTimeLimit : Int32
  backend : Sql.Backend
  id : UInt64

/-- The request, handled. -/
def Submission.handled (s : Submission) : Except Sql.Failure MessageSendJudge :=
  handleJudgeMsg s.order s.junk s.oldMemoryLimit s.oldTimeLimit s.backend s.body.text

/-- The message that is meant. -/
def Submission.message (s : Submission) : MessageSendJudge where
  key := toStringULL s.id
  code := s.entiy.code
  language := s.entiy.language
  pid := s.entiy.pid
  timeLimit := s.entiy.timeLimit
  memoryLimit := s.entiy.memoryLimit

/-- The submission can be read and sent, and the database takes its statements.  The number of its
row fits into an `unsigned`. -/
structure Submission.Taken (s : Submission) : Prop where
  strings : ∀ x ∈ [s.entiy.language, s.entiy.code, s.entiy.pid], x.getLast? ≠ some bslash
  language : 2 ≤ s.entiy.language.length
  short : s.message.dumps.length ≤ 2 ^ 31 - 5
  narrow : s.id.toNat < 2 ^ 32
  inserted : Sql.Answers s.backend
    (Sql.addSolutions submissionOwner s.entiy.pid (langToInt s.entiy.language))
    (.rows 1 [⟨[some (toStringULL s.id)], rfl⟩])
  codes : ∃ r, Sql.Answers s.backend (Sql.addSolutionCodes s.id s.entiy.code) r
  fullResult : ∃ r, Sql.Answers s.backend (Sql.addSolutionFullResult s.id) r

section
variable {s : Submission}

theorem narrow_id (h : s.id.toNat < 2 ^ 32) : s.id.toUInt32.toUInt64 = s.id := by
  rw [← UInt64.toNat_inj, UInt32.toNat_toUInt64, UInt64.toNat_toUInt32, Nat.mod_eq_of_lt h]

/-- The rows are inserted under the number of the first. -/
theorem Submission.Taken.submit (h : s.Taken) : submit s.backend s.entiy = .ok s.message := by
  obtain ⟨r, hcodes⟩ := h.codes
  obtain ⟨t, hfull⟩ := h.fullResult
  have hid : addSolutions s.backend submissionOwner s.entiy.pid (langToInt s.entiy.language) =
      .ok s.id := by
    rw [addSolutions, Sql.execValue_ull h.inserted]
    exact congrArg Except.ok (narrow_id h.narrow)
  rw [Backend.submit, hid]
  show (Sql.execVoid _ _ >>= fun _ => Sql.execVoid _ _ >>= fun _ => pure _) = _
  rw [Sql.execVoid_answers hcodes, Sql.execVoid_answers hfull]
  rfl

/-- The text of the request is read as what was meant. -/
theorem Submission.Taken.loads (h : s.Taken) : Json.loads s.order s.junk
    (JudgeEntiy.fresh s.oldMemoryLimit s.oldTimeLimit).object s.body.text =
      .returned s.entiy.object := by
  obtain ⟨e, hloads, hmemory, htime, hlanguage, hcode, hpid⟩ :=
    s.body.loads_eq s.order s.junk s.oldMemoryLimit s.oldTimeLimit
  have hstrings := h.strings
  simp only [List.mem_cons, List.not_mem_nil, or_false, forall_eq_or_imp, forall_eq] at hstrings
  have heq : e = s.entiy := by
    have hl := hlanguage.mpr hstrings.1
    have hc := hcode.mpr hstrings.2.1
    have hp := hpid.mpr hstrings.2.2
    cases e
    cases hs : s.entiy
    simp only [hs] at hmemory htime hl hc hp
    simp only [JudgeEntiy.mk.injEq]
    exact ⟨hl, hc, hp, hmemory, htime⟩
  rw [hloads, heq]

theorem Submission.Taken.handled (h : s.Taken) : s.handled = .ok s.message := by
  obtain ⟨e, he, hhandled⟩ := handleJudgeMsg_returned h.loads s.backend
  rw [Submission.handled, hhandled, ← JudgeEntiy.object_injective he]
  exact h.submit

theorem Submission.Taken.sendable (h : s.Taken) : Sendable s.message.dumps := by
  refine ⟨?_, h.short⟩
  have hkey := List.length_pos_iff.mpr (decimal_ne_nil s.id.toNat)
  have hlanguage := h.language
  rw [sendDumps_length]
  show 27 ≤ 24 + ((decimal s.id.toNat).length + s.entiy.code.length + s.entiy.language.length +
    s.entiy.pid.length)
  omega

end

theorem messages_sendable {subs : List Submission} (h : ∀ s ∈ subs, s.Taken) :
    ∀ m ∈ subs.map Submission.message, Sendable m.dumps := by
  intro m hm
  obtain ⟨s, hs, rfl⟩ := List.mem_map.mp hm
  exact (h s hs).sendable

/-- **Submissions reach the judge.**  Submissions that are posted one after the other are handled
without an exception, and when their messages are written to a connection, the judge's receive loop
passes on exactly these messages in order, however the bytes are cut on the way and whether or not
the connection is closed behind them. -/
theorem submissions_reach_judge (subs : List Submission) (h : ∀ s ∈ subs, s.Taken)
    (sends : ℕ → ℕ) (hsends : ∀ k, 0 < sends k) :
    (∀ s ∈ subs, s.handled = .ok s.message) ∧
      ∃ sent, tcpWriteAll sends 0 (payloads MessageSendJudge.dumps (subs.map Submission.message)
          (messages_sendable h)) = some sent ∧
        ∀ (closed : Bool) (arrived : List Str), arrived.flatten = sent.flatten → ∀ k,
          serverReceiver.events closed k arrived =
            (subs.take k).map fun s => .passed s.message true := by
  refine ⟨fun s hs => (h s hs).handled, ?_⟩
  obtain ⟨sent, hsent, hflatten⟩ := payloads_written (messages_sendable h) hsends
  refine ⟨sent, hsent, fun closed arrived harrived k => ?_⟩
  rw [events_counted (.inl rfl) serverReceiver_dumps _ (messages_sendable h) arrived
    (harrived.trans hflatten), ← List.map_take, List.map_map]
  rfl

/-! ### Replies on the way back -/

theorem sizeReply_length (key : Str) (n : ℕ) :
    (sizeReply key n).dumps.length = 24 + key.length + (decimal n).length := by
  have hmsg : (ascii "allSize:" ++ decimal n).length = 8 + (decimal n).length :=
    List.length_append
  rw [resultDumps_length]
  show 16 + (key.length + (ascii "allSize:" ++ decimal n).length) + 32 * 0 = _
  omega

theorem allReply_length (key : Str) (rs : List Result) :
    (allReply key rs).dumps.length = 19 + key.length + 32 * rs.length := by
  rw [resultDumps_length]
  show 16 + (key.length + 3) + 32 * rs.length = _
  omega

theorem pointReplies_long {key : Str} {n : ℕ} (tests : List (Path × Path)) :
    ∀ (i : ℕ) (rs : List Result), ∀ m ∈ pointMessages key n i tests rs, 27 ≤ m.dumps.length := by
  induction tests with
  | nil =>
    intro i rs m hm
    simp [pointMessages] at hm
  | cons test tests ih =>
    intro i rs m hm
    cases rs with
    | nil => simp [pointMessages] at hm
    | cons r rs =>
      rcases List.mem_cons.mp hm with rfl | hm
      · rw [resultDumps_length]
        show 27 ≤ _ + 32 * 1
        omega
      · exact ih (i + 1) rs m hm

/-- **Which submissions' replies can be written.**  For a submission that compiles and all of whose
runs are started, every call of `TcpWrite` stays inside its frame if and only if the number of the
submission or that of the tests has two digits, and there is a test or the number of the submission
has eight. -/
theorem replies_written_iff (host : Host) (jn : JudgeQueueNode) (w : Workspace) (sid : ℕ)
    (hkey : jn.key = decimal sid) (hw : compiled host jn = some w)
    (hlen : (verdicts host jn w).length = w.problem.inputData.length) (sends : ℕ → ℕ)
    (hsends : ∀ k, 0 < sends k) (ps : List Payload)
    (hps : ps.map Payload.bytes = (workStage1 host jn).map MessageResultJudge.dumps) :
    (∃ sent, tcpWriteAll sends 0 ps = some sent) ↔
      (10 ≤ sid ∨ 10 ≤ w.problem.inputData.length) ∧
        (0 < w.problem.inputData.length ∨ 10 ^ 7 ≤ sid) := by
  have hwritten : (∃ sent, tcpWriteAll sends 0 ps = some sent) ↔ ∀ p ∈ ps, 27 ≤ p.bytes.length := by
    constructor
    · intro ⟨sent, hsent⟩
      exact long_of_tcpWriteAll sends ps 0 sent hsent
    · intro hlong
      obtain ⟨sent, hsent, -⟩ := tcpWriteAll_eq sends hsends ps hlong 0
      exact ⟨sent, hsent⟩
  have hbytes : (∀ p ∈ ps, 27 ≤ p.bytes.length) ↔
      ∀ m ∈ workStage1 host jn, 27 ≤ m.dumps.length := by
    have h := List.forall_mem_map (f := Payload.bytes) (l := ps) (P := fun b => 27 ≤ b.length)
    rw [← h, hps, List.forall_mem_map]
  have hsid := lt_decimal_length_iff (k := 1) (by omega) sid
  have hsid' := lt_decimal_length_iff (k := 7) (by omega) sid
  have hn := lt_decimal_length_iff (k := 1) (by omega) w.problem.inputData.length
  have hsidpos := List.length_pos_iff.mpr (decimal_ne_nil sid)
  have hnpos := List.length_pos_iff.mpr (decimal_ne_nil w.problem.inputData.length)
  rw [hwritten, hbytes, workStage1_replies hw hlen, List.forall_mem_cons, List.forall_mem_append,
    List.forall_mem_singleton, hkey, sizeReply_length, allReply_length, hlen]
  constructor
  · intro ⟨hsize, _, hall⟩
    exact ⟨by omega, by omega⟩
  · intro ⟨hdigits, htests⟩
    exact ⟨by omega, pointReplies_long _ _ _, by omega⟩

theorem replies_sendable {host : Host} {jn : JudgeQueueNode} {w : Workspace} (sid : ℕ)
    (hkey : jn.key = decimal sid) (hw : compiled host jn = some w)
    (hlen : (verdicts host jn w).length = w.problem.inputData.length) (hsid : 10 ≤ sid)
    (htests : 0 < w.problem.inputData.length)
    (hshort : ∀ m ∈ workStage1 host jn, m.dumps.length ≤ 2 ^ 31 - 5) :
    ∀ m ∈ workStage1 host jn, Sendable m.dumps := by
  have hdigits := (lt_decimal_length_iff (k := 1) (by omega) sid).mpr (by omega)
  have hnpos := List.length_pos_iff.mpr (decimal_ne_nil w.problem.inputData.length)
  have hlong : ∀ m ∈ workStage1 host jn, 27 ≤ m.dumps.length := by
    rw [workStage1_replies hw hlen, List.forall_mem_cons, List.forall_mem_append,
      List.forall_mem_singleton, hkey, sizeReply_length, allReply_length, hlen]
    exact ⟨by omega, pointReplies_long _ _ _, by omega⟩
  exact fun m hm => ⟨hlong m hm, hshort m hm⟩

/-- The messages a receive loop passes on in its first `k` rounds. -/
def passedOn {α : Type} (r : Receiver α) (closed : Bool) (k : ℕ) (chunks : List Str) : List α :=
  (r.events closed k chunks).filterMap fun e =>
    match e with
    | .passed msg _ => some msg
    | .outside => none
    | .thrown => none

theorem passedOn_counted {α : Type} {r : Receiver α} {dumps : α → Str} {closed : Bool}
    (hstop : r.checksEnd = true ∨ closed = false)
    (hloads : ∀ m, (dumps m).length < 2 ^ 31 → r.loads (dumps m) = .ok m) {msgs : List α}
    (h : ∀ m ∈ msgs, Sendable (dumps m)) {chunks : List Str}
    (hchunks : chunks.flatten = (msgs.map fun m => counted (dumps m)).flatten) {k : ℕ}
    (hk : msgs.length ≤ k) : passedOn r closed k chunks = msgs := by
  rw [passedOn, events_counted hstop hloads msgs h chunks hchunks, List.take_of_length_le hk,
    List.filterMap_map]
  exact List.filterMap_some

/-- A submission in the order of the struct, without white space. -/
def exampleEntiy : JudgeEntiy := ⟨ascii "cpp", ascii "int main(){}", ascii "1", 256, 1000⟩

theorem exampleEntiy_encoded : exampleEntiy.encoded =
    [(languageKey, quoted (ascii "cpp")), (codeKey, quoted (ascii "int main(){}")),
      (memoryLimitKey, ascii "256"), (timeLimitKey, ascii "1000"),
      (pidKey, quoted (ascii "1"))] := by
  decide +kernel

theorem exampleEntiy_perm : [(languageKey, quoted (ascii "cpp")),
    (codeKey, quoted (ascii "int main(){}")), (memoryLimitKey, ascii "256"),
    (timeLimitKey, ascii "1000"), (pidKey, quoted (ascii "1"))].Perm exampleEntiy.encoded := by
  rw [exampleEntiy_encoded]

theorem languageKey_name : ∀ c ∈ languageKey, isNameChar c = true := List.all_eq_true.mp rfl

theorem codeKey_name : ∀ c ∈ codeKey, isNameChar c = true := List.all_eq_true.mp rfl

theorem memoryLimitKey_name : ∀ c ∈ memoryLimitKey, isNameChar c = true := List.all_eq_true.mp rfl

theorem timeLimitKey_name : ∀ c ∈ timeLimitKey, isNameChar c = true := List.all_eq_true.mp rfl

theorem pidKey_name : ∀ c ∈ pidKey, isNameChar c = true := List.all_eq_true.mp rfl

/-- Its text. -/
def exampleText : JsonText exampleEntiy where
  first := plainMember languageKey (quoted (ascii "cpp")) languageKey_name
  rest := [plainMember codeKey (quoted (ascii "int main(){}")) codeKey_name,
    plainMember memoryLimitKey (ascii "256") memoryLimitKey_name,
    plainMember timeLimitKey (ascii "1000") timeLimitKey_name,
    plainMember pidKey (quoted (ascii "1")) pidKey_name]
  pre := noBlanks
  post := noBlanks
  perm := exampleEntiy_perm

/-- A database that gives every new row the number 17. -/
def exampleBackend : Sql.Backend := fun q =>
  if (ascii "insert into solutions ").isPrefixOf q then
    .ok (.rows 1 [⟨[some (ascii "17")], rfl⟩])
  else .ok (.null 0)

/-- The submission with this text and this database. -/
def exampleSubmission : Submission :=
  ⟨exampleEntiy, exampleText, keyOrder, 0, 0, 0, exampleBackend, 17⟩

theorem exampleSubmission_taken : exampleSubmission.Taken where
  strings := by decide
  language := by decide
  short := by decide +kernel
  narrow := by decide
  inserted := ⟨_, rfl, rfl⟩
  codes := ⟨_, _, rfl, rfl⟩
  fullResult := ⟨_, _, rfl, rfl⟩

theorem exampleReplies_short : ∀ m ∈ workStage1 exampleHost (enque exampleSubmission.message 5),
    m.dumps.length ≤ 2 ^ 31 - 5 := by
  decide +kernel

/-- The payloads of the replies to a submission with a number of one digit. -/
def examplePayloads : List Payload :=
  (workStage1 exampleHost exampleNode).pmap
    (fun m (h : 1 ≤ m.dumps.length ∧ m.dumps.length ≤ 2 ^ 31 - 5) => ⟨m.dumps, h.1, h.2⟩)
    (by decide +kernel)

/-- They cannot be written: the message with the number of tests is too short. -/
theorem replies_written_iff_example :
    ¬∃ sent, tcpWriteAll (fun _ => 1) 0 examplePayloads = some sent := by
  have hiff := replies_written_iff exampleHost exampleNode exampleWorkspace 7 (by decide)
    compiled_example rfl (fun _ => 1) (fun _ => by decide) examplePayloads
    (by rw [examplePayloads, List.map_pmap, List.pmap_eq_map])
  exact fun h => absurd (hiff.mp h) (by decide)

end Rojcpp.Backend
