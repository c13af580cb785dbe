import Rojcpp.Logger.AsyncLogger

/-!
# Stopping the logger

`stop` clears `m_running`, notifies, and joins the logger thread.  The thread tests `m_running`
before it takes the buffers, so what it finds in the front end after its last round stays there.

`stop_writes_iff` compares the messages appended before the call of `stop` with the file when it
returns.
-/

namespace Rojcpp.Logger

open Rojcpp.Lib

/-- A step of the other threads, those that append and the logger thread. -/
def LoggerAction.ofOthers : LoggerAction → Bool
  | .start => false
  | .callStop => false
  | .store => false
  | .join => false
  | _ => true

/-- A run that ends with a call of `stop`: `before` is everything up to the call, `opening` comes
before `m_running` is cleared and `closing` before the thread is joined.  `atStore` is the state
in which `m_running` is cleared, and `final` the one in which `stop` returns. -/
structure StopRun (before opening closing : List LoggerAction) (atStore final : LoggerState) :
    Prop where
  opened : logger.run logger.start (before ++ .callStop :: opening) = some atStore
  closed : logger.run atStore (.store :: closing ++ [.join]) = some final
  others : ∀ a ∈ opening ++ closing, a.ofOthers = true

/-- Every message appended by these steps is in the file. -/
def Written (before : List LoggerAction) (s : LoggerState) : Prop :=
  ∀ m ∈ (messagesOf before).zipIdx, m ∈ s.file

/-- The logger thread has found `m_running` set and has not taken the buffers yet. -/
def LoggerState.Taking (s : LoggerState) : Prop := s.phase = .locking ∨ s.phase = .waiting

/-- The messages appended by these steps fit into buffers, and when `m_running` is cleared either
the logger thread is going to take the buffers once more or none of the messages is in the front
end. -/
def Saved (before : List LoggerAction) (s : LoggerState) : Prop :=
  (∀ msg ∈ messagesOf before, msg.length < kLargeBuffer) ∧
    (s.Taking ∨ ∀ m ∈ s.inFront, (messagesOf before).length ≤ m.2)

/-! ### After `m_running` is cleared -/

/-- A step that is neither the owner's nor makes the thread take the buffers. -/
theorem last_round {s s' : LoggerState} {a : LoggerAction} (hs : LoggerInv s)
    (hothers : a.ofOthers = true) (hrunning : s.running = false) (htaking : ¬ s.Taking)
    (h : loggerStep s a = some s') :
    s'.running = false ∧ ¬ s'.Taking ∧ s'.collected = s.collected := by
  cases loggerEffect_of_step h with
  | append => exact ⟨hrunning, htaking, rfl⟩
  | start => cases hothers
  | callStop => cases hothers
  | store => cases hothers
  | join => cases hothers
  | test hphase =>
    rw [hrunning]
    refine ⟨rfl, ?_, ?_⟩
    · rintro (h | h) <;> cases h
    · rw [LoggerState.collected, LoggerState.collected, LoggerState.unwritten,
        LoggerState.unwritten, hphase]
      rfl
  | wait hphase => exact absurd (.inl hphase) htaking
  | lock hphase => exact absurd (.inl hphase) htaking
  | wake hphase => exact absurd (.inr hphase) htaking
  | write i b hphase hbuffer =>
    have htrace := (keeps_write hs (a := .write) rfl hphase hbuffer).trace
    rw [stored_nil rfl, List.append_nil] at htrace
    refine ⟨hrunning, ?_, List.append_cancel_right htrace⟩
    rintro (h | h) <;> cases h
  | recycle hphase =>
    have htrace := (keeps_recycle hs (a := .recycle) rfl hphase).trace
    rw [stored_nil rfl, List.append_nil] at htrace
    refine ⟨hrunning, ?_, List.append_cancel_right htrace⟩
    rintro (h | h) <;> cases h

/-- A thread that no longer takes the buffers only writes what it has. -/
theorem run_last_round (as : List LoggerAction) : ∀ {s s' : LoggerState}, LoggerInv s →
    (∀ a ∈ as, a.ofOthers = true) → s.running = false → ¬ s.Taking →
    logger.run s as = some s' → ¬ s'.Taking ∧ s'.collected = s.collected := by
  induction as with
  | nil =>
    intro s s' _ _ _ htaking h
    cases h
    exact ⟨htaking, rfl⟩
  | cons a as ih =>
    intro s s' hs hothers hrunning htaking h
    obtain ⟨s₁, hstep, h⟩ := Option.bind_eq_some_iff.mp h
    obtain ⟨hrunning₁, htaking₁, hcollected⟩ :=
      last_round hs (hothers a (by simp)) hrunning htaking hstep
    obtain ⟨htaking', hcollected'⟩ := ih (keeps_step hs hstep).inv
      (fun b hb => hothers b (List.mem_cons_of_mem a hb)) hrunning₁ htaking₁ h
    exact ⟨htaking', hcollected'.trans hcollected⟩

/-- A message that the thread has, or is going to take. -/
def LoggerState.Coming (s : LoggerState) (m : Message) : Prop :=
  m ∈ s.collected ∨ s.Taking ∧ m ∈ s.inFront

theorem coming_step {s s' : LoggerState} {a : LoggerAction} (hs : LoggerInv s)
    (hothers : a.ofOthers = true) (hrunning : s.running = false)
    (h : loggerStep s a = some s') (m : Message) (hm : s.Coming m) :
    s'.running = false ∧ s'.Coming m := by
  by_cases htaking : s.Taking
  swap
  · obtain ⟨hrunning', -, hcollected⟩ := last_round hs hothers hrunning htaking h
    rcases hm with hm | hm
    · exact ⟨hrunning', .inl (hcollected ▸ hm)⟩
    · exact absurd hm.1 htaking
  have hall : m ∈ s.collected ++ s.inFront := by
    rw [List.mem_append]
    rcases hm with hm | hm
    · exact .inl hm
    · exact .inr hm.2
  have hwhere : m ∈ s'.collected ++ s'.inFront := by
    rw [(keeps_step hs h).trace]
    exact List.mem_append_left _ hall
  -- the thread is still going to take the buffers, or has just taken them
  have hstays : s'.running = false ∧ (s'.Taking ∨ s'.inFront = []) := by
    cases loggerEffect_of_step h with
    | append => exact ⟨hrunning, .inl htaking⟩
    | start => cases hothers
    | callStop => cases hothers
    | store => cases hothers
    | join => cases hothers
    | test hphase => rcases htaking with hp | hp <;> (rw [hp] at hphase; cases hphase)
    | wait => exact ⟨hrunning, .inl (.inr rfl)⟩
    | lock hphase => exact ⟨hrunning, .inr (take_spec hs (.inr (.inl hphase))).2.2⟩
    | wake hphase => exact ⟨hrunning, .inr (take_spec hs (.inr (.inr hphase))).2.2⟩
    | write i b hphase => rcases htaking with hp | hp <;> (rw [hp] at hphase; cases hphase)
    | recycle hphase => rcases htaking with hp | hp <;> (rw [hp] at hphase; cases hphase)
  refine ⟨hstays.1, ?_⟩
  rcases List.mem_append.mp hwhere with hin | hin
  · exact .inl hin
  · rcases hstays.2 with htaking' | hnil
    · exact .inr ⟨htaking', hin⟩
    · rw [hnil] at hin
      cases hin

theorem run_coming (as : List LoggerAction) (m : Message) : ∀ {s s' : LoggerState},
    LoggerInv s → (∀ a ∈ as, a.ofOthers = true) → s.running = false → s.Coming m →
    logger.run s as = some s' → s'.Coming m := by
  induction as with
  | nil =>
    intro s s' _ _ _ hm h
    cases h
    exact hm
  | cons a as ih =>
    intro s s' hs hothers hrunning hm h
    obtain ⟨s₁, hstep, h⟩ := Option.bind_eq_some_iff.mp h
    obtain ⟨hrunning₁, hm₁⟩ := coming_step hs (hothers a (by simp)) hrunning hstep m hm
    exact ih (keeps_step hs hstep).inv
      (fun b hb => hothers b (List.mem_cons_of_mem a hb)) hrunning₁ hm₁ h

/-! ### A call of `stop` -/

theorem messagesOf_append (as bs : List LoggerAction) :
    messagesOf (as ++ bs) = messagesOf as ++ messagesOf bs := List.filterMap_append

/-- The numbers of the messages anywhere are all different. -/
theorem numbers_nodup (as : List LoggerAction) {s : LoggerState}
    (hrun : logger.run logger.start as = some s) :
    ((s.collected ++ s.inFront).map Prod.snd).Nodup := by
  obtain ⟨-, -, htrace⟩ := run_trace as loggerInv_start hrun
  rw [htrace]
  show ((((messagesOf as).zipIdx 0).filter _).map Prod.snd).Nodup
  apply List.Sublist.nodup (List.Sublist.map Prod.snd List.filter_sublist)
  rw [List.zipIdx_map_snd]
  exact List.nodup_range'

/-- The short messages of the first part of a run are anywhere after the run. -/
theorem mem_of_zipIdx (before after : List LoggerAction) {s : LoggerState}
    (hrun : logger.run logger.start (before ++ after) = some s) {m : Message}
    (hm : m ∈ (messagesOf before).zipIdx) (hshort : m.Short) :
    m ∈ s.collected ++ s.inFront := by
  obtain ⟨-, -, htrace⟩ := run_trace _ loggerInv_start hrun
  rw [htrace]
  show m ∈ ((messagesOf (before ++ after)).zipIdx 0).filter _
  rw [List.mem_filter, messagesOf_append, List.zipIdx_append]
  exact ⟨List.mem_append_left _ hm, decide_eq_true hshort⟩

/-- Every message anywhere is short. -/
theorem short_of_mem (as : List LoggerAction) {s : LoggerState}
    (hrun : logger.run logger.start as = some s) {m : Message}
    (hm : m ∈ s.collected ++ s.inFront) : m.Short := by
  obtain ⟨-, -, htrace⟩ := run_trace as loggerInv_start hrun
  rw [htrace] at hm
  have hfilter : m ∈ ((messagesOf as).zipIdx 0).filter fun m => Message.Short m := hm
  exact of_decide_eq_true (List.mem_filter.mp hfilter).2

/-- What the end of `stop` does with the messages the logger thread has, and with those it is
going to take. -/
theorem closed_spec {closing : List LoggerAction} {atStore final : LoggerState}
    (hs : LoggerInv atStore) (hclosed : logger.run atStore (.store :: closing ++ [.join]) =
      some final) (hothers : ∀ a ∈ closing, a.ofOthers = true) :
    (∀ m, atStore.Coming m → m ∈ final.file) ∧
      (¬ atStore.Taking → final.file = atStore.collected) := by
  rw [List.cons_append] at hclosed
  obtain ⟨s₄, hstore, hclosed⟩ := Option.bind_eq_some_iff.mp hclosed
  change loggerStep atStore .store = some s₄ at hstore
  have hs₄ := (keeps_step hs hstore).inv
  rw [loggerStep, Option.ite_none_right_eq_some] at hstore
  obtain ⟨-, hstore⟩ := hstore
  cases hstore
  change logger.run _ (closing ++ [.join]) = some final at hclosed
  rw [System.run_append] at hclosed
  obtain ⟨s₅, hclosing, hjoin⟩ := Option.bind_eq_some_iff.mp hclosed
  obtain ⟨s₆, hjoin, hfinal⟩ := Option.bind_eq_some_iff.mp hjoin
  cases hfinal
  have hs₅ := (run_trace closing hs₄ hclosing).1
  change loggerStep s₅ .join = some final at hjoin
  rw [loggerStep, Option.ite_none_right_eq_some] at hjoin
  obtain ⟨⟨-, habsent⟩, hjoin⟩ := hjoin
  cases hjoin
  -- the thread has returned, so all it has is in the file
  have hfile : s₅.collected = s₅.file :=
    hs₅.collected_eq fun i h => by rw [habsent] at h; cases h
  constructor
  · intro m hm
    rcases run_coming closing m hs₄ hothers rfl hm hclosing with hin | ⟨htaking, -⟩
    · exact hfile ▸ hin
    · rcases htaking with hp | hp <;> (rw [habsent] at hp; cases hp)
  · intro htaking
    exact hfile ▸ (run_last_round closing hs₄ hothers rfl htaking hclosing).2

/-- **When `stop` has written everything.**  The messages appended before the call of `stop` are
all in the file when it returns if and only if they fit into buffers and, when `m_running` is
cleared, the logger thread is going to take the buffers once more or has all of them already. -/
theorem stop_writes_iff {before opening closing : List LoggerAction}
    {atStore final : LoggerState} (h : StopRun before opening closing atStore final) :
    Written before final ↔ Saved before atStore := by
  have hs := (run_trace _ loggerInv_start h.opened).1
  obtain ⟨hcoming, hlast⟩ := closed_spec hs h.closed
    fun a ha => h.others a (List.mem_append_right _ ha)
  constructor
  · intro hwritten
    have hrun : logger.run logger.start
        ((before ++ .callStop :: opening) ++ (.store :: closing ++ [.join])) = some final := by
      rw [System.run_append, h.opened]
      exact h.closed
    refine ⟨fun msg hmsg => ?_, ?_⟩
    · obtain ⟨n, hn⟩ := List.getElem?_of_mem hmsg
      have hfile := hwritten (msg, n) (List.mk_mem_zipIdx_iff_getElem?.mpr hn)
      exact short_of_mem _ hrun
        (List.mem_append_left final.inFront (List.mem_append_left (held final.unwritten) hfile))
    · by_cases htaking : atStore.Taking
      · exact .inl htaking
      refine .inr fun m hm => ?_
      by_contra hlt
      rw [Nat.not_le] at hlt
      have hn := List.getElem?_eq_getElem hlt
      have hfile := hwritten (_, m.2) (List.mk_mem_zipIdx_iff_getElem?.mpr hn)
      rw [hlast htaking] at hfile
      -- two messages with one number
      have hnodup := numbers_nodup _ h.opened
      rw [List.map_append, List.nodup_append] at hnodup
      exact hnodup.2.2 _ (List.mem_map_of_mem hfile) _ (List.mem_map_of_mem hm) rfl
  · rintro ⟨hshort, hsaved⟩ m hm
    have hin := mem_of_zipIdx before _ h.opened hm (hshort m.1 (List.fst_mem_of_mem_zipIdx hm))
    apply hcoming
    rcases List.mem_append.mp hin with hin | hin
    · exact .inl hin
    · rcases hsaved with htaking | hfront
      · exact .inr ⟨htaking, hin⟩
      · have hle := hfront m hin
        have hlt := List.snd_lt_of_mem_zipIdx hm
        omega

/-- `stop` is called while the thread waits. -/
theorem stop_writes_waiting : ∃ atStore final, StopRun [.append [1], .start, .test, .lock] []
      [.wake, .write, .recycle, .test] atStore final ∧ atStore.phase = .waiting ∧
    Written [.append [1], .start, .test, .lock] final := by
  have hrun : ∃ atStore final, StopRun [.append [1], .start, .test, .lock] []
      [.wake, .write, .recycle, .test] atStore final ∧ atStore.phase = .waiting :=
    ⟨_, _, ⟨rfl, rfl, by decide⟩, rfl⟩
  obtain ⟨atStore, final, h, hphase⟩ := hrun
  exact ⟨atStore, final, h, hphase, (stop_writes_iff h).mpr ⟨by decide, .inl (.inr hphase)⟩⟩

/-- **A message appended while the last round is written is lost.** -/
theorem stop_loses : ∃ atStore final,
    StopRun [.start, .test, .lock, .wake, .append [1]] [] [.write, .recycle, .test] atStore final ∧
      ¬ Written [.start, .test, .lock, .wake, .append [1]] final := by
  refine ⟨_, _, ⟨rfl, rfl, by decide⟩, fun h => ?_⟩
  have hmem := h ([1], 0) (List.mk_mem_zipIdx_iff_getElem?.mpr rfl)
  cases hmem

end Rojcpp.Logger
