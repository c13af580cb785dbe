import Rojcpp.Cpp.Text
import Rojcpp.Lib.System

/-!
# The asynchronous logger

Threads append messages to the current buffer of the front end; a buffer that is full goes to
`m_buffers`.  The logger thread takes all of them, writes them to the file, and recycles two.  The
two sides share four places for buffers: `m_currentBuffer`, `m_nextBuffer` and the thread's two
spares.

A step is a stretch of code under the mutex, a load or store of `m_running`, one `file.append`, or
the recycling behind the loop that writes.  A message carries its number, so that equal messages
can be told apart; a pointer that was moved from is `none`.

`logger_trace` says that nothing is lost, duplicated or reordered on the way to the file.
-/

namespace Rojcpp.Logger

open Rojcpp.Lib

/-! ### Buffers -/

/-- A message and its number: how many calls of `append` came before. -/
abbrev Message := Str × ℕ

/-- The bytes of messages, one behind the other. -/
def bytes (ms : List Message) : Str := ms.flatMap Prod.fst

/-- `kLargeBuffer`. -/
def kLargeBuffer : ℕ := 4096 * 1024

/-- `logBuffer<kLargeBuffer>`, up to `m_cur`. -/
structure LogBuffer where
  messages : List Message
  deriving DecidableEq, Repr

/-- `new Buffer`. -/
def LogBuffer.new : LogBuffer := ⟨[]⟩

/-- `avail`. -/
def LogBuffer.avail (b : LogBuffer) : ℕ := kLargeBuffer - (bytes b.messages).length

/-- `logBuffer::append`, which drops what does not fit. -/
def LogBuffer.append (b : LogBuffer) (m : Message) : LogBuffer :=
  if m.1.length < b.avail then ⟨b.messages ++ [m]⟩ else b

/-- `reset`. -/
def LogBuffer.reset (_ : LogBuffer) : LogBuffer := ⟨[]⟩

/-! ### The two sides -/

/-- What `m_mtx` protects. -/
structure Front where
  currentBuffer : Option LogBuffer
  nextBuffer : Option LogBuffer
  buffers : List (Option LogBuffer)
  deriving DecidableEq, Repr

/-- The variables of `threadFunc`. -/
structure Back where
  newBuff1 : Option LogBuffer
  newBuff2 : Option LogBuffer
  buffersToWrite : List (Option LogBuffer)
  deriving DecidableEq, Repr

/-- `append`; `none` is the use of a null pointer. -/
def Front.append (f : Front) (m : Message) : Option Front :=
  match f.currentBuffer with
  | none => none
  | some current =>
    if m.1.length < current.avail then some { f with currentBuffer := some (current.append m) }
    else
      some {
        currentBuffer := some ((f.nextBuffer.getD LogBuffer.new).append m)
        nextBuffer := none
        buffers := f.buffers ++ [some current] }

/-- The end of the critical section of `threadFunc`: it takes all buffers and leaves its spares. -/
def swap (f : Front) (b : Back) : Front × Back :=
  ({ currentBuffer := b.newBuff1
     nextBuffer := if f.nextBuffer = none then b.newBuff2 else f.nextBuffer
     buffers := b.buffersToWrite },
   { newBuff1 := none
     newBuff2 := if f.nextBuffer = none then none else b.newBuff2
     buffersToWrite := f.buffers ++ [f.currentBuffer] })

/-- A spare that is missing is taken from the end of the buffers that are kept. -/
def refill (spare : Option LogBuffer) (kept : List (Option LogBuffer)) :
    Option LogBuffer × List (Option LogBuffer) :=
  match spare, kept.getLast? with
  | none, some last => (last.map LogBuffer.reset, kept.dropLast)
  | spare, _ => (spare, kept)

/-- What `threadFunc` does behind its writing loop. -/
def Back.recycle (b : Back) : Back :=
  let kept := if 2 < b.buffersToWrite.length then b.buffersToWrite.take 2 else b.buffersToWrite
  let first := refill b.newBuff1 kept
  let second := refill b.newBuff2 first.2
  ⟨first.1, second.1, []⟩

/-! ### The logger -/

/-- Where the logger thread is: there is none, or it is about to load `m_running`, about to lock,
in `wait_for`, which may end at any time, or in the loop that writes, in front of the buffer `i`. -/
inductive Phase where
  | absent
  | testing
  | locking
  | waiting
  | writing (i : ℕ)
  deriving DecidableEq, Repr

/-- What the owner of the logger has done: nothing, or it has returned from `start`, called `stop`,
cleared `m_running` inside it, or returned from it. -/
inductive Owner where
  | created
  | started
  | stopCalled
  | joining
  | stopped
  deriving DecidableEq, Repr

/-- The logger; `file` is what was passed to `file.append`, and `appended` counts the messages. -/
structure LoggerState where
  running : Bool
  front : Front
  back : Back
  phase : Phase
  owner : Owner
  file : List Message
  appended : ℕ
  deriving DecidableEq, Repr

/-- The steps: `append` by any thread; `start`, and `stop` in three parts, by the owner; and those
of the logger thread. -/
inductive LoggerAction where
  | append (msg : Str)
  | start
  | callStop
  | store
  | join
  | test
  | lock
  | wake
  | write
  | recycle
  deriving DecidableEq, Repr

/-- The logger thread has the mutex and the buffers it wants. -/
def LoggerState.take (s : LoggerState) : LoggerState :=
  let r := swap s.front s.back
  { s with front := r.1, back := r.2, phase := .writing 0 }

/-- One step. -/
def loggerStep (s : LoggerState) : LoggerAction → Option LoggerState
  | .append msg => (s.front.append (msg, s.appended)).map fun front =>
      { s with front, appended := s.appended + 1 }
  | .start =>
    if s.owner = .created ∨ s.owner = .stopped then
      some { s with
        running := true
        owner := .started
        back := ⟨some .new, some .new, []⟩
        phase := .testing }
    else none
  | .callStop => if s.owner = .started then some { s with owner := .stopCalled } else none
  | .store =>
    if s.owner = .stopCalled then some { s with running := false, owner := .joining } else none
  | .join =>
    if s.owner = .joining ∧ s.phase = .absent then some { s with owner := .stopped } else none
  | .test =>
    if s.phase = .testing then some { s with phase := if s.running then .locking else .absent }
    else none
  | .lock =>
    if s.phase = .locking then
      if s.front.buffers = [] then some { s with phase := .waiting } else some s.take
    else none
  | .wake => if s.phase = .waiting then some s.take else none
  | .write =>
    match s.phase with
    | .writing i =>
      match s.back.buffersToWrite[i]? with
      | some (some b) => some { s with file := s.file ++ b.messages, phase := .writing (i + 1) }
      | _ => none
    | _ => none
  | .recycle =>
    if s.phase = .writing s.back.buffersToWrite.length then
      some { s with back := s.back.recycle, phase := .testing }
    else none

/-- The logger behind its constructor. -/
def logger : System LoggerState LoggerAction :=
  ⟨⟨false, ⟨some .new, some .new, []⟩, ⟨none, none, []⟩, .absent, .created, [], 0⟩, loggerStep⟩

/-! ### Where the messages are -/

/-- The messages in a list of buffers. -/
def held (bs : List (Option LogBuffer)) : List Message :=
  bs.flatMap fun b => (b.map LogBuffer.messages).getD []

@[simp] theorem held_nil : held [] = [] := rfl

@[simp] theorem held_append (as bs : List (Option LogBuffer)) :
    held (as ++ bs) = held as ++ held bs := List.flatMap_append

@[simp] theorem held_some (b : LogBuffer) (bs : List (Option LogBuffer)) :
    held (some b :: bs) = b.messages ++ held bs := rfl

/-- The buffers that are still to be written. -/
def LoggerState.unwritten (s : LoggerState) : List (Option LogBuffer) :=
  match s.phase with
  | .writing i => s.back.buffersToWrite.drop i
  | _ => s.back.buffersToWrite

/-- What has reached the file or is on its way there in the logger thread. -/
def LoggerState.collected (s : LoggerState) : List Message := s.file ++ held s.unwritten

/-- What is in the front end. -/
def LoggerState.inFront (s : LoggerState) : List Message :=
  held s.front.buffers ++ held [s.front.currentBuffer]

/-- The messages a run appends. -/
def messagesOf (as : List LoggerAction) : List Str :=
  as.filterMap fun a => match a with
    | .append msg => some msg
    | _ => none

/-- A message that fits into a buffer. -/
def Message.Short (m : Message) : Prop := m.1.length < kLargeBuffer

instance (m : Message) : Decidable m.Short := inferInstanceAs (Decidable (_ < _))

/-! ### The invariant -/

/-- No message, if there is a buffer. -/
def Blank (b : Option LogBuffer) : Prop := held [b] = []

/-- What holds between the two sides: the front end has a current buffer, and so has each round of
the logger thread, because the buffers it has written leave it at least one spare. -/
structure LoggerInv (s : LoggerState) : Prop where
  idle : s.owner = .created ∨ s.owner = .stopped → s.phase = .absent
  current : s.front.currentBuffer ≠ none
  full : none ∉ s.front.buffers
  next : Blank s.front.nextBuffer
  spare1 : Blank s.back.newBuff1
  spare2 : Blank s.back.newBuff2
  between : (∀ i, s.phase ≠ .writing i) → s.back.buffersToWrite = []
  ready : s.phase = .testing ∨ s.phase = .locking ∨ s.phase = .waiting → s.back.newBuff1 ≠ none
  writing : ∀ i, s.phase = .writing i → s.back.newBuff1 = none ∧ s.back.buffersToWrite ≠ [] ∧
    none ∉ s.back.buffersToWrite ∧ i ≤ s.back.buffersToWrite.length

theorem loggerInv_start : LoggerInv logger.start where
  idle _ := rfl
  current := nofun
  full := nofun
  next := rfl
  spare1 := rfl
  spare2 := rfl
  between _ := rfl
  ready h := by rcases h with h | h | h <;> cases h
  writing i h := nomatch h

theorem blank_none : Blank none := rfl

theorem Blank.getD {b : Option LogBuffer} (h : Blank b) : (b.getD .new).messages = [] := by
  cases b with
  | none => rfl
  | some b => simpa [Blank] using h

/-- A short message fits into an empty buffer. -/
theorem LogBuffer.append_messages (b : LogBuffer) (m : Message) (h : b.messages = []) :
    (b.append m).messages = if m.Short then [m] else [] := by
  have havail : b.avail = kLargeBuffer := by rw [avail, h]; rfl
  rw [append, havail]
  by_cases hm : m.Short
  · rw [if_pos (show m.1.length < kLargeBuffer from hm), if_pos hm, h]
    rfl
  · rw [if_neg (show ¬ m.1.length < kLargeBuffer from hm), if_neg hm, h]

/-- **What `append` does**: it needs a current buffer, and adds a short message behind the others
in the front end. -/
theorem append_spec (f : Front) (m : Message) (hcurrent : f.currentBuffer ≠ none)
    (hnext : Blank f.nextBuffer) (hfull : none ∉ f.buffers) :
    ∃ f', f.append m = some f' ∧ f'.currentBuffer ≠ none ∧ Blank f'.nextBuffer ∧
      none ∉ f'.buffers ∧ held f'.buffers ++ held [f'.currentBuffer] =
        held f.buffers ++ held [f.currentBuffer] ++ if m.Short then [m] else [] := by
  cases hc : f.currentBuffer with
  | none => exact absurd hc hcurrent
  | some current =>
    rw [Front.append, hc]
    simp only
    by_cases hroom : m.1.length < current.avail
    · have hshort : m.Short := Nat.lt_of_lt_of_le hroom (Nat.sub_le _ _)
      rw [if_pos hroom]
      refine ⟨_, rfl, nofun, hnext, hfull, ?_⟩
      rw [LogBuffer.append, if_pos hroom, if_pos hshort]
      simp
    · rw [if_neg hroom]
      refine ⟨_, rfl, nofun, blank_none, ?_, ?_⟩
      · rw [List.mem_append, not_or]
        exact ⟨hfull, by simp⟩
      · simp only [held_append, held_some, held_nil, List.append_nil,
          LogBuffer.append_messages _ m hnext.getD]

/-- Where the thread is between two rounds. -/
def LoggerState.Between (s : LoggerState) : Prop :=
  s.phase = .testing ∨ s.phase = .locking ∨ s.phase = .waiting

theorem LoggerState.Between.ne_writing {s : LoggerState} (h : s.Between) (i : ℕ) :
    s.phase ≠ .writing i := by
  rcases h with h | h | h <;> rw [h] <;> nofun

theorem LoggerState.Between.ne_absent {s : LoggerState} (h : s.Between) : s.phase ≠ .absent := by
  rcases h with h | h | h <;> rw [h] <;> nofun

/-- While the thread runs, its owner is between `start` and `join`. -/
theorem LoggerInv.busy {s : LoggerState} (hs : LoggerInv s) (hphase : s.phase ≠ .absent) :
    ¬ (s.owner = .created ∨ s.owner = .stopped) := fun h => hphase (hs.idle h)

/-- Between two rounds everything the thread took is in the file. -/
theorem LoggerInv.collected_eq {s : LoggerState} (hs : LoggerInv s)
    (hphase : ∀ i, s.phase ≠ .writing i) : s.collected = s.file := by
  have hunwritten : s.unwritten = s.back.buffersToWrite := by
    rw [LoggerState.unwritten]
    split
    · exact absurd ‹_› (hphase _)
    · rfl
  rw [LoggerState.collected, hunwritten, hs.between hphase, held_nil, List.append_nil]

/-- **What the swap does**: it moves what is in the front end behind what the thread has. -/
theorem take_spec {s : LoggerState} (hs : LoggerInv s) (hphase : s.Between) :
    LoggerInv s.take ∧ s.take.collected = s.collected ++ s.inFront ∧ s.take.inFront = [] := by
  have hwrite : s.back.buffersToWrite = [] := hs.between hphase.ne_writing
  have hready : s.back.newBuff1 ≠ none := hs.ready hphase
  have hbusy := hs.busy hphase.ne_absent
  refine ⟨⟨fun h => absurd h hbusy, hready, ?_, ?_, blank_none, ?_,
    fun h => absurd rfl (h 0), ?_, ?_⟩, ?_, ?_⟩
  · show none ∉ s.back.buffersToWrite
    rw [hwrite]
    nofun
  · show Blank (if s.front.nextBuffer = none then _ else _)
    split
    · exact hs.spare2
    · exact hs.next
  · show Blank (if s.front.nextBuffer = none then _ else _)
    split
    · exact blank_none
    · exact hs.spare2
  · rintro (h | h | h) <;> cases h
  · intro i h
    cases h
    refine ⟨rfl, by simp [LoggerState.take, swap], ?_, Nat.zero_le _⟩
    show none ∉ s.front.buffers ++ [s.front.currentBuffer]
    rw [List.mem_append, not_or]
    exact ⟨hs.full, by simpa using Ne.symm hs.current⟩
  · rw [hs.collected_eq hphase.ne_writing, LoggerState.collected]
    show s.file ++ held (s.front.buffers ++ [s.front.currentBuffer]) = _
    rw [held_append]
    rfl
  · show held s.back.buffersToWrite ++ held [s.back.newBuff1] = []
    rw [hwrite, held_nil, List.nil_append]
    exact hs.spare1

/-- **What the recycling does**: from one buffer or more it makes an empty spare, and another one
if there are two. -/
theorem recycle_spec (b : Back) (hnone : b.newBuff1 = none) (hspare : Blank b.newBuff2)
    (hne : b.buffersToWrite ≠ []) (hsome : none ∉ b.buffersToWrite) :
    b.recycle.newBuff1 ≠ none ∧ Blank b.recycle.newBuff1 ∧ Blank b.recycle.newBuff2 ∧
      b.recycle.buffersToWrite = [] := by
  generalize hkept : (if 2 < b.buffersToWrite.length then b.buffersToWrite.take 2
    else b.buffersToWrite) = kept
  have hsub : ∀ x ∈ kept, x ∈ b.buffersToWrite := by
    intro x hx
    rw [← hkept] at hx
    split at hx
    · exact List.mem_of_mem_take hx
    · exact hx
  have hkne : kept ≠ [] := by
    rw [← hkept]
    split
    · rw [Ne, List.take_eq_nil_iff, not_or]
      exact ⟨by decide, hne⟩
    · exact hne
  have hlast : kept.getLast? = some (kept.getLast hkne) := List.getLast?_eq_some_getLast hkne
  have hblank : ∀ x : Option LogBuffer, Blank (x.map LogBuffer.reset) := by
    intro x
    cases x <;> rfl
  rw [Back.recycle, hkept, hnone]
  simp only [refill, hlast]
  refine ⟨?_, hblank _, ?_, trivial⟩
  · intro h
    rw [Option.map_eq_none_iff] at h
    exact hsome (hsub _ (h ▸ List.getLast_mem hkne))
  · split
    · exact hblank _
    · exact hspare

/-! ### Steps and runs -/

/-- The effect of a step, case by case. -/
inductive LoggerEffect (s : LoggerState) : LoggerAction → LoggerState → Prop
  | append (msg : Str) (front : Front) (hfront : s.front.append (msg, s.appended) = some front) :
      LoggerEffect s (.append msg) { s with front, appended := s.appended + 1 }
  | start (howner : s.owner = .created ∨ s.owner = .stopped) :
      LoggerEffect s .start { s with
        running := true
        owner := .started
        back := ⟨some .new, some .new, []⟩
        phase := .testing }
  | callStop : LoggerEffect s .callStop { s with owner := .stopCalled }
  | store : LoggerEffect s .store { s with running := false, owner := .joining }
  | join (habsent : s.phase = .absent) : LoggerEffect s .join { s with owner := .stopped }
  | test (hphase : s.phase = .testing) :
      LoggerEffect s .test { s with phase := if s.running then .locking else .absent }
  | wait (hphase : s.phase = .locking) : LoggerEffect s .lock { s with phase := .waiting }
  | lock (hphase : s.phase = .locking) : LoggerEffect s .lock s.take
  | wake (hphase : s.phase = .waiting) : LoggerEffect s .wake s.take
  | write (i : ℕ) (b : LogBuffer) (hphase : s.phase = .writing i)
      (hbuffer : s.back.buffersToWrite[i]? = some (some b)) :
      LoggerEffect s .write { s with file := s.file ++ b.messages, phase := .writing (i + 1) }
  | recycle (hphase : s.phase = .writing s.back.buffersToWrite.length) :
      LoggerEffect s .recycle { s with back := s.back.recycle, phase := .testing }

theorem loggerEffect_of_step {s s' : LoggerState} {a : LoggerAction}
    (h : loggerStep s a = some s') : LoggerEffect s a s' := by
  cases a with
  | append msg =>
    obtain ⟨front, hfront, rfl⟩ := Option.map_eq_some_iff.mp h
    exact .append msg front hfront
  | start =>
    simp only [loggerStep, Option.ite_none_right_eq_some, Option.some.injEq] at h
    obtain ⟨howner, rfl⟩ := h
    exact .start howner
  | callStop =>
    simp only [loggerStep, Option.ite_none_right_eq_some, Option.some.injEq] at h
    obtain ⟨-, rfl⟩ := h
    exact .callStop
  | store =>
    simp only [loggerStep, Option.ite_none_right_eq_some, Option.some.injEq] at h
    obtain ⟨-, rfl⟩ := h
    exact .store
  | join =>
    simp only [loggerStep, Option.ite_none_right_eq_some, Option.some.injEq] at h
    obtain ⟨⟨-, habsent⟩, rfl⟩ := h
    exact .join habsent
  | test =>
    simp only [loggerStep, Option.ite_none_right_eq_some, Option.some.injEq] at h
    obtain ⟨hphase, rfl⟩ := h
    exact .test hphase
  | lock =>
    rw [loggerStep, Option.ite_none_right_eq_some] at h
    obtain ⟨hphase, h⟩ := h
    by_cases hempty : s.front.buffers = []
    · rw [if_pos hempty] at h
      cases h
      exact .wait hphase
    · rw [if_neg hempty] at h
      cases h
      exact .lock hphase
  | wake =>
    simp only [loggerStep, Option.ite_none_right_eq_some, Option.some.injEq] at h
    obtain ⟨hphase, rfl⟩ := h
    exact .wake hphase
  | write =>
    simp only [loggerStep] at h
    split at h
    · rename_i i hphase
      split at h
      · rename_i b hbuffer
        cases h
        exact .write i b hphase hbuffer
      · cases h
    · cases h
  | recycle =>
    simp only [loggerStep, Option.ite_none_right_eq_some, Option.some.injEq] at h
    obtain ⟨hphase, rfl⟩ := h
    exact .recycle hphase

/-- What an action adds to the front end: `append` adds a short message. -/
def stored (n : ℕ) : LoggerAction → List Message
  | .append msg => if Message.Short (msg, n) then [(msg, n)] else []
  | _ => []

/-- The number of messages an action appends. -/
def LoggerAction.count : LoggerAction → ℕ
  | .append _ => 1
  | _ => 0

/-- What a step has to do. -/
structure Keeps (s s' : LoggerState) (a : LoggerAction) : Prop where
  inv : LoggerInv s'
  trace : s'.collected ++ s'.inFront = s.collected ++ s.inFront ++ stored s.appended a
  appended : s'.appended = s.appended + a.count

theorem stored_nil {a : LoggerAction} (ha : a.count = 0) (n : ℕ) : stored n a = [] := by
  cases a with
  | append msg => cases ha
  | _ => rfl

/-- A step that appends nothing and leaves the messages where they are. -/
theorem trace_of_eq {s s' : LoggerState} {a : LoggerAction} (ha : a.count = 0)
    (hcollected : s'.collected = s.collected) (hfront : s'.inFront = s.inFront) :
    s'.collected ++ s'.inFront = s.collected ++ s.inFront ++ stored s.appended a := by
  rw [hcollected, hfront, stored_nil ha, List.append_nil]

section
variable {s : LoggerState} {a : LoggerAction}

theorem keeps_append (hs : LoggerInv s) (msg : Str) {f : Front}
    (hf : s.front.append (msg, s.appended) = some f) :
    Keeps s { s with front := f, appended := s.appended + 1 } (.append msg) := by
  obtain ⟨f', hf', hcurrent, hnext, hfull, hheld⟩ :=
    append_spec s.front (msg, s.appended) hs.current hs.next hs.full
  rw [hf] at hf'
  cases hf'
  refine ⟨⟨hs.idle, hcurrent, hfull, hnext, hs.spare1, hs.spare2, hs.between, hs.ready,
    hs.writing⟩, ?_, rfl⟩
  show s.collected ++ (held f.buffers ++ held [f.currentBuffer]) = _
  rw [hheld, ← List.append_assoc]
  rfl

/-- A step of the owner, other than `start`. -/
theorem keeps_owner (hs : LoggerInv s) (ha : a.count = 0) {running : Bool} {owner : Owner}
    (howner : owner = .created ∨ owner = .stopped → s.phase = .absent) :
    Keeps s { s with running, owner } a :=
  ⟨⟨howner, hs.current, hs.full, hs.next, hs.spare1, hs.spare2, hs.between, hs.ready,
    hs.writing⟩, trace_of_eq ha rfl rfl, by rw [ha]; rfl⟩

theorem keeps_start (hs : LoggerInv s) (ha : a.count = 0)
    (howner : s.owner = .created ∨ s.owner = .stopped) :
    Keeps s { s with
      running := true
      owner := .started
      back := ⟨some .new, some .new, []⟩
      phase := .testing } a := by
  have habsent := hs.idle howner
  have hcollected := hs.collected_eq fun i hi => by rw [habsent] at hi; cases hi
  refine ⟨⟨nofun, hs.current, hs.full, hs.next, rfl, rfl, fun _ => rfl, fun _ => nofun,
    fun i h => nomatch h⟩, trace_of_eq ha ?_ rfl, by rw [ha]; rfl⟩
  rw [hcollected]
  exact List.append_nil _

/-- The thread goes on without writing. -/
theorem keeps_phase (hs : LoggerInv s) (ha : a.count = 0) (hphase : s.Between) {p : Phase}
    (hp : ∀ i, p ≠ .writing i) : Keeps s { s with phase := p } a := by
  have hbusy := hs.busy hphase.ne_absent
  have hinv : LoggerInv { s with phase := p } :=
    ⟨fun h => absurd h hbusy, hs.current, hs.full, hs.next, hs.spare1, hs.spare2,
      fun _ => hs.between hphase.ne_writing, fun _ => hs.ready hphase, fun i h => absurd h (hp i)⟩
  refine ⟨hinv, trace_of_eq ha ?_ rfl, by rw [ha]; rfl⟩
  rw [hs.collected_eq hphase.ne_writing, hinv.collected_eq hp]

theorem keeps_take (hs : LoggerInv s) (ha : a.count = 0) (hphase : s.Between) :
    Keeps s s.take a := by
  obtain ⟨hinv, hcollected, hfront⟩ := take_spec hs hphase
  refine ⟨hinv, ?_, by rw [ha]; rfl⟩
  rw [hcollected, hfront, stored_nil ha]

theorem keeps_write (hs : LoggerInv s) (ha : a.count = 0) {i : ℕ} {b : LogBuffer}
    (hphase : s.phase = .writing i) (hb : s.back.buffersToWrite[i]? = some (some b)) :
    Keeps s { s with file := s.file ++ b.messages, phase := .writing (i + 1) } a := by
  obtain ⟨hnone, hne, hsome, -⟩ := hs.writing i hphase
  obtain ⟨hi, hget⟩ := List.getElem?_eq_some_iff.mp hb
  have hbusy := hs.busy (by rw [hphase]; nofun)
  refine ⟨⟨fun h => absurd h hbusy, hs.current, hs.full, hs.next, hs.spare1, hs.spare2,
    fun h => absurd rfl (h _), ?_, ?_⟩, trace_of_eq ha ?_ rfl, by rw [ha]; rfl⟩
  · rintro (h | h | h) <;> cases h
  · intro j hj
    cases hj
    exact ⟨hnone, hne, hsome, hi⟩
  · have hdrop : s.back.buffersToWrite.drop i =
        some b :: s.back.buffersToWrite.drop (i + 1) := by
      rw [List.drop_eq_getElem_cons hi, hget]
    rw [LoggerState.collected, LoggerState.collected, LoggerState.unwritten,
      LoggerState.unwritten, hphase]
    simp only
    rw [hdrop, held_some, List.append_assoc s.file]

theorem keeps_recycle (hs : LoggerInv s) (ha : a.count = 0)
    (hphase : s.phase = .writing s.back.buffersToWrite.length) :
    Keeps s { s with back := s.back.recycle, phase := .testing } a := by
  obtain ⟨hnone, hne, hsome, -⟩ := hs.writing _ hphase
  obtain ⟨hready, hspare1, hspare2, hempty⟩ := recycle_spec s.back hnone hs.spare2 hne hsome
  have hbusy := hs.busy (by rw [hphase]; nofun)
  refine ⟨⟨fun h => absurd h hbusy, hs.current, hs.full, hs.next, hspare1, hspare2,
    fun _ => hempty, fun _ => hready, fun i h => nomatch h⟩, trace_of_eq ha ?_ rfl,
    by rw [ha]; rfl⟩
  rw [LoggerState.collected, LoggerState.collected, LoggerState.unwritten,
    LoggerState.unwritten, hphase]
  simp only
  rw [hempty, List.drop_length]

end

/-- **One step.** -/
theorem keeps_step {s s' : LoggerState} {a : LoggerAction} (hs : LoggerInv s)
    (h : loggerStep s a = some s') : Keeps s s' a := by
  cases loggerEffect_of_step h with
  | append msg f hf => exact keeps_append hs msg hf
  | start howner => exact keeps_start hs rfl howner
  | callStop => exact keeps_owner hs rfl nofun
  | store => exact keeps_owner hs rfl nofun
  | join habsent => exact keeps_owner hs rfl fun _ => habsent
  | test hphase =>
    refine keeps_phase hs rfl (.inl hphase) fun i => ?_
    split <;> nofun
  | wait hphase => exact keeps_phase hs rfl (.inr (.inl hphase)) nofun
  | lock hphase => exact keeps_take hs rfl (.inr (.inl hphase))
  | wake hphase => exact keeps_take hs rfl (.inr (.inr hphase))
  | write i b hphase hb => exact keeps_write hs rfl hphase hb
  | recycle hphase => exact keeps_recycle hs rfl hphase

theorem messagesOf_cons (n : ℕ) (a : LoggerAction) (as : List LoggerAction) :
    ((messagesOf (a :: as)).zipIdx n).filter (fun m => Message.Short m) =
      stored n a ++ ((messagesOf as).zipIdx (n + a.count)).filter (fun m => Message.Short m) := by
  cases a with
  | append msg =>
    show ((msg :: messagesOf as).zipIdx n).filter _ = _
    rw [List.zipIdx_cons, List.filter_cons, stored]
    by_cases h : Message.Short (msg, n)
    · rw [if_pos (by simpa using h), if_pos h]
      rfl
    · rw [if_neg (by simpa using h), if_neg h]
      rfl
  | _ => rfl

/-- **A run** adds its short messages, in order and with their numbers. -/
theorem run_trace (as : List LoggerAction) : ∀ {s s' : LoggerState}, LoggerInv s →
    logger.run s as = some s' → LoggerInv s' ∧
      s'.appended = s.appended + (messagesOf as).length ∧
      s'.collected ++ s'.inFront = s.collected ++ s.inFront ++
        ((messagesOf as).zipIdx s.appended).filter (fun m => Message.Short m) := by
  induction as with
  | nil =>
    intro s s' hs h
    cases h
    exact ⟨hs, rfl, (List.append_nil _).symm⟩
  | cons a as ih =>
    intro s s' hs h
    obtain ⟨s₁, hstep, h⟩ := Option.bind_eq_some_iff.mp h
    have hkeeps := keeps_step hs hstep
    obtain ⟨hs', happended, htrace⟩ := ih hkeeps.inv h
    refine ⟨hs', ?_, ?_⟩
    · rw [happended, hkeeps.appended]
      cases a with
      | append msg =>
        show s.appended + 1 + _ = s.appended + ((messagesOf as).length + 1)
        omega
      | _ => rfl
    · rw [htrace, hkeeps.trace, hkeeps.appended, messagesOf_cons, List.append_assoc _ (stored _ _)]

theorem bytes_zipIdx (ms : List Str) : ∀ n, bytes (ms.zipIdx n) = ms.flatten := by
  induction ms with
  | nil => exact fun _ => rfl
  | cons m ms ih =>
    intro n
    show m ++ bytes (ms.zipIdx (n + 1)) = m ++ ms.flatten
    rw [ih]

/-- **Nothing is lost, duplicated or reordered.**  After any run whose messages are shorter than a
buffer, the bytes passed to `file.append`, those of the buffers still to be written, of
`m_buffers` and of `m_currentBuffer` are together all appended messages in order, and there is a
current buffer for the next `append`. -/
theorem logger_trace (as : List LoggerAction)
    (hshort : ∀ msg ∈ messagesOf as, msg.length < kLargeBuffer) {s : LoggerState}
    (hrun : logger.run logger.start as = some s) :
    bytes s.file ++ bytes (held s.unwritten) ++ bytes (held s.front.buffers) ++
        bytes (held [s.front.currentBuffer]) = (messagesOf as).flatten ∧
      s.front.currentBuffer ≠ none := by
  obtain ⟨hs, -, htrace⟩ := run_trace as loggerInv_start hrun
  have hall : ((messagesOf as).zipIdx 0).filter (fun m => Message.Short m) =
      (messagesOf as).zipIdx 0 := by
    rw [List.filter_eq_self]
    intro m hm
    exact decide_eq_true (hshort m.1 (List.fst_mem_of_mem_zipIdx hm))
  have hbytes := congrArg bytes htrace
  rw [show logger.start.appended = 0 from rfl, hall] at hbytes
  simp only [LoggerState.collected, LoggerState.inFront, bytes, List.flatMap_append] at hbytes ⊢
  refine ⟨?_, hs.current⟩
  rw [List.append_assoc, hbytes]
  exact bytes_zipIdx (messagesOf as) 0

/-- A run in which the second buffer is written while a message arrives. -/
theorem logger_trace_example : ∃ s, logger.run logger.start
    [.append [1], .start, .test, .lock, .append [2], .wake, .append [3], .write] = some s ∧
    s.file = [([1], 0), ([2], 1)] ∧
    bytes s.file ++ bytes (held s.unwritten) ++ bytes (held s.front.buffers) ++
        bytes (held [s.front.currentBuffer]) = [1, 2, 3] ∧
      s.front.currentBuffer ≠ none :=
  ⟨_, rfl, rfl, logger_trace
    [.append [1], .start, .test, .lock, .append [2], .wake, .append [3], .write]
    (by decide) rfl⟩

end Rojcpp.Logger
