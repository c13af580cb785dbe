import Rojcpp.Judge.Server

/-!
# Where the answers go

`ServerEffect` says once what each step of the server does, and the lemmas behind it say what a
step does to one component.  The delivery invariant is assembled from them: a job that is still
worked on has its descriptor either open on the connection it came from, or closed and unknown to
the socket manager, so that nobody can take it.

What breaks the invariant is an `accept` that returns a descriptor a job still carries.
`answers_reach_sender` is about the runs without such an `accept`, and `answer_to_stranger` is a
run with one.
-/

namespace Rojcpp.Judge

open Rojcpp.Lib Function

/-! ### What a step does -/

/-- The effect of a step, case by case. -/
inductive ServerEffect (s : ServerState) : ServerAction → ServerState → Prop
  | accept (fd : ℕ) (hmain : s.main = .scanning) (hfree : LowestFree s.slots fd) :
      ServerEffect s (.accept fd) { s with
        slots := update s.slots fd (.conn s.nextConn)
        nextConn := s.nextConn + 1
        readfds := update s.readfds fd true
        main := .accepted fd }
  | insert (fd : ℕ) (hmain : s.main = .accepted fd) :
      ServerEffect s .insert { s with sockets := s.sockets.insert fd, main := .scanning }
  | receive (fd c : ℕ) (msg : MessageSendJudge) (hslot : s.slots fd = .conn c) :
      ServerEffect s (.receive fd msg) { s with queue := s.queue ++ [⟨fd, c, msg⟩] }
  | disconnect (fd : ℕ) (hmain : s.main = .scanning) :
      ServerEffect s (.disconnect fd) { s with main := .removing fd }
  | remove (fd : ℕ) (hmain : s.main = .removing fd) (hunused : s.sockets fd = some false) :
      ServerEffect s .remove
        { s with sockets := update s.sockets fd none, main := .closing fd }
  | removeRetry : ServerEffect s .remove s
  | close (fd : ℕ) (hmain : s.main = .closing fd) :
      ServerEffect s .close { s with
        slots := update s.slots fd .free
        readfds := update s.readfds fd false
        main := .scanning }
  | dequeue (w : ℕ) (job : Job) (queue : List Job) (hqueue : s.queue = job :: queue)
      (hidle : s.workers w = .idle) :
      ServerEffect s (.dequeue w)
        { s with queue := queue, workers := update s.workers w (.running job) }
  | acquire (w : ℕ) (job : Job) (hrun : s.workers w = .running job)
      (hunused : s.sockets job.fd = some false) :
      ServerEffect s (.acquire w) { s with
        sockets := update s.sockets job.fd (some true)
        workers := update s.workers w (.holding job) }
  | acquireRetry (w : ℕ) : ServerEffect s (.acquire w) s
  | send (w : ℕ) (job : Job) (hhold : s.workers w = .holding job) :
      ServerEffect s (.send w) { s with sent := s.sent ++ [⟨job, s.slots job.fd⟩] }
  | release (w : ℕ) (job : Job) (hhold : s.workers w = .holding job) :
      ServerEffect s (.release w) { s with
        sockets := s.sockets.unuse job.fd
        workers := update s.workers w (.running job) }
  | finish (w : ℕ) (job : Job) (hrun : s.workers w = .running job) :
      ServerEffect s (.finish w) { s with workers := update s.workers w .idle }
  | openFile (fd : ℕ) (hfree : LowestFree s.slots fd) :
      ServerEffect s (.openFile fd) { s with slots := update s.slots fd .other }
  | closeFile (fd : ℕ) (hother : s.slots fd = .other) :
      ServerEffect s (.closeFile fd) { s with slots := update s.slots fd .free }

theorem serverEffect_of_step {size : ℕ} {s s' : ServerState} {a : ServerAction}
    (h : serverStep size s a = some s') : ServerEffect s a s' := by
  cases a with
  | accept fd =>
    simp only [serverStep, Option.ite_none_right_eq_some, Option.some.injEq] at h
    obtain ⟨⟨hmain, hfree⟩, rfl⟩ := h
    exact .accept fd hmain hfree
  | insert =>
    simp only [serverStep] at h
    split at h
    · rename_i fd hmain
      cases h
      exact .insert fd hmain
    · cases h
  | receive fd msg =>
    simp only [serverStep] at h
    split at h
    · rename_i c hslot
      simp only [Option.ite_none_right_eq_some, Option.some.injEq] at h
      obtain ⟨-, rfl⟩ := h
      exact .receive fd c msg hslot
    · cases h
  | disconnect fd =>
    simp only [serverStep, Option.ite_none_right_eq_some, Option.some.injEq] at h
    obtain ⟨⟨hmain, -⟩, rfl⟩ := h
    exact .disconnect fd hmain
  | remove =>
    simp only [serverStep] at h
    split at h
    · rename_i fd hmain
      cases h
      rcases s.sockets.remove_cases fd with ⟨hunused, hr⟩ | hr
      · rw [hr]
        exact .remove fd hmain hunused
      · rw [hr]
        simp only [Bool.false_eq_true, if_false, ← hmain]
        exact .removeRetry
    · cases h
  | close =>
    simp only [serverStep] at h
    split at h
    · rename_i fd hmain
      cases h
      exact .close fd hmain
    · cases h
  | dequeue w =>
    simp only [serverStep] at h
    split at h
    · rename_i job queue hqueue
      simp only [Option.ite_none_right_eq_some, Option.some.injEq] at h
      obtain ⟨⟨-, hidle⟩, rfl⟩ := h
      exact .dequeue w job queue hqueue hidle
    · cases h
  | acquire w =>
    simp only [serverStep] at h
    split at h
    · rename_i job hrun
      cases h
      rcases s.sockets.getSpecifiedFd_cases job.fd with ⟨hunused, hr⟩ | hr
      · rw [hr]
        exact .acquire w job hrun hunused
      · rw [hr]
        exact .acquireRetry w
    · cases h
  | send w =>
    simp only [serverStep] at h
    split at h
    · rename_i job hhold
      cases h
      exact .send w job hhold
    · cases h
  | release w =>
    simp only [serverStep] at h
    split at h
    · rename_i job hhold
      cases h
      exact .release w job hhold
    · cases h
  | finish w =>
    simp only [serverStep] at h
    split at h
    · rename_i job hrun
      cases h
      exact .finish w job hrun
    · cases h
  | openFile fd =>
    simp only [serverStep, Option.ite_none_right_eq_some, Option.some.injEq] at h
    obtain ⟨hfree, rfl⟩ := h
    exact .openFile fd hfree
  | closeFile fd =>
    simp only [serverStep, Option.ite_none_right_eq_some, Option.some.injEq] at h
    obtain ⟨⟨hother, -⟩, rfl⟩ := h
    exact .closeFile fd hother

/-! ### What a step does to one component -/

section Components

variable {s s' : ServerState} {a : ServerAction}

/-- The value of an updated function is the new one or the old one. -/
theorem update_cases {α : Type} {f : ℕ → α} {v w : ℕ} {x y : α} (h : update f v x w = y) :
    (w = v ∧ x = y) ∨ f w = y := by
  by_cases hw : w = v
  · subst hw
    rw [update_self] at h
    exact .inl ⟨rfl, h⟩
  · rw [update_of_ne hw] at h
    exact .inr h

/-- A worker that holds a descriptor held it before, or has just taken it. -/
theorem ServerEffect.holding (h : ServerEffect s a s') {w : ℕ} {j : Job}
    (hj : s'.workers w = .holding j) :
    s.workers w = .holding j ∨
      (a = .acquire w ∧ s.workers w = .running j ∧ s.sockets j.fd = some false ∧
        s'.sockets j.fd = some true) := by
  cases h with
  | acquire v job hrun hunused =>
    rcases update_cases hj with ⟨rfl, hjob⟩ | hj
    · cases hjob
      exact .inr ⟨rfl, hrun, hunused, update_self _ _ _⟩
    · exact .inl hj
  | dequeue v job queue hqueue hidle =>
    rcases update_cases hj with ⟨-, hjob⟩ | hj
    · cases hjob
    · exact .inl hj
  | release v job hhold =>
    rcases update_cases hj with ⟨-, hjob⟩ | hj
    · cases hjob
    · exact .inl hj
  | finish v job hrun =>
    rcases update_cases hj with ⟨-, hjob⟩ | hj
    · cases hjob
    · exact .inl hj
  | _ => exact .inl hj

/-- A worker that runs a job worked on it before, or has just taken it from the queue. -/
theorem ServerEffect.running (h : ServerEffect s a s') {w : ℕ} {j : Job}
    (hj : s'.workers w = .running j) : Pending s j := by
  cases h with
  | acquire v job hrun hunused =>
    rcases update_cases hj with ⟨-, hjob⟩ | hj
    · cases hjob
    · exact .inr ⟨w, .inl hj⟩
  | dequeue v job queue hqueue hidle =>
    rcases update_cases hj with ⟨-, hjob⟩ | hj
    · cases hjob
      exact .inl (hqueue ▸ List.mem_cons_self)
    · exact .inr ⟨w, .inl hj⟩
  | release v job hhold =>
    rcases update_cases hj with ⟨-, hjob⟩ | hj
    · cases hjob
      exact .inr ⟨v, .inr hhold⟩
    · exact .inr ⟨w, .inl hj⟩
  | finish v job hrun =>
    rcases update_cases hj with ⟨-, hjob⟩ | hj
    · cases hjob
    · exact .inr ⟨w, .inl hj⟩
  | _ => exact .inr ⟨w, .inl hj⟩

/-- A queued job was queued before, or has just been received. -/
theorem ServerEffect.queued (h : ServerEffect s a s') {j : Job} (hj : j ∈ s'.queue) :
    j ∈ s.queue ∨ (s.slots j.fd = .conn j.conn ∧ s'.slots j.fd = .conn j.conn) := by
  cases h with
  | receive fd c msg hslot =>
    rcases List.mem_append.mp hj with hj | hj
    · exact .inl hj
    · rw [List.mem_singleton.mp hj]
      exact .inr ⟨hslot, hslot⟩
  | dequeue w job queue hqueue hidle => exact .inl (hqueue ▸ List.mem_cons_of_mem _ hj)
  | _ => exact .inl hj

/-- A pending job was pending before, or has just been received on its connection. -/
theorem ServerEffect.pending (h : ServerEffect s a s') {j : Job} (hj : Pending s' j) :
    Pending s j ∨ (s.slots j.fd = .conn j.conn ∧ s'.slots j.fd = .conn j.conn) := by
  rcases hj with hj | ⟨w, hj | hj⟩
  · exact (h.queued hj).imp .inl id
  · exact .inl (h.running hj)
  · rcases h.holding hj with hj | ⟨-, hj, -⟩
    · exact .inl (.inr ⟨w, .inr hj⟩)
    · exact .inl (.inr ⟨w, .inl hj⟩)

/-- A connection stays on its descriptor until the main thread closes it. -/
theorem ServerEffect.conn (h : ServerEffect s a s') {fd c : ℕ} (hc : s.slots fd = .conn c) :
    s'.slots fd = .conn c ∨ (s.main = .closing fd ∧ s'.main = .scanning) := by
  cases h with
  | accept k hmain hfree =>
    have hk : fd ≠ k := by
      rintro rfl
      rw [hfree.1] at hc
      cases hc
    exact .inl ((update_of_ne hk _ _).trans hc)
  | close k hmain =>
    by_cases hk : fd = k
    · subst hk
      exact .inr ⟨hmain, rfl⟩
    · exact .inl ((update_of_ne hk _ _).trans hc)
  | openFile k hfree =>
    have hk : fd ≠ k := by
      rintro rfl
      rw [hfree.1] at hc
      cases hc
    exact .inl ((update_of_ne hk _ _).trans hc)
  | closeFile k hother =>
    have hk : fd ≠ k := by
      rintro rfl
      rw [hother] at hc
      cases hc
    exact .inl ((update_of_ne hk _ _).trans hc)
  | _ => exact .inl hc

/-- A descriptor becomes known to the socket manager only behind its `accept`. -/
theorem ServerEffect.unknown (h : ServerEffect s a s') {fd : ℕ} (hn : s.sockets fd = none)
    (hmain : s.main ≠ .accepted fd) : s'.sockets fd = none := by
  cases h with
  | insert k hk =>
    have hne : fd ≠ k := by
      rintro rfl
      exact hmain hk
    show s.sockets.insert k fd = none
    rw [SocketMap.insert_apply, if_neg (fun h => hne h.1), hn]
  | remove k hk hunused =>
    show update s.sockets k none fd = none
    rw [update_apply, hn, ite_self]
  | acquire w job hrun hunused =>
    have hne : fd ≠ job.fd := by
      rintro rfl
      rw [hn] at hunused
      cases hunused
    exact (update_of_ne hne _ _).trans hn
  | release w job hhold =>
    show s.sockets.unuse job.fd fd = none
    by_cases hfd : fd = job.fd
    · subst hfd
      rw [SocketMap.unuse_apply, if_neg (fun h => h.2 hn), hn]
    · rw [SocketMap.unuse_apply, if_neg (fun h => hfd h.1), hn]
  | _ => exact hn

/-- A descriptor in use stays in use until its holder gives it back. -/
theorem ServerEffect.inUse (h : ServerEffect s a s') {fd : ℕ} (hu : s.sockets fd = some true) :
    s'.sockets fd = some true ∨
      ∃ w j, s.workers w = .holding j ∧ j.fd = fd ∧ s'.workers w = .running j := by
  cases h with
  | insert k hk =>
    show s.sockets.insert k fd = some true ∨ _
    refine .inl ?_
    by_cases hfd : fd = k
    · subst hfd
      rw [SocketMap.insert_apply, hu]
      simp
    · rw [SocketMap.insert_apply, if_neg (fun h => hfd h.1), hu]
  | remove k hk hunused =>
    have hne : fd ≠ k := by
      rintro rfl
      rw [hu] at hunused
      cases hunused
    exact .inl ((update_of_ne hne _ _).trans hu)
  | acquire w job hrun hunused =>
    have hne : fd ≠ job.fd := by
      rintro rfl
      rw [hu] at hunused
      cases hunused
    exact .inl ((update_of_ne hne _ _).trans hu)
  | release w job hhold =>
    by_cases hfd : fd = job.fd
    · exact .inr ⟨w, job, hhold, hfd.symm, update_self _ _ _⟩
    · refine .inl ?_
      show s.sockets.unuse job.fd fd = some true
      rw [SocketMap.unuse_apply, if_neg (fun h => hfd h.1), hu]
  | _ => exact .inl hu

/-- The main thread stands behind an `accept` only after it. -/
theorem ServerEffect.accepted (h : ServerEffect s a s') {fd : ℕ} (hm : s'.main = .accepted fd) :
    s.main = .accepted fd ∨ a = .accept fd := by
  cases h with
  | accept k hmain hfree =>
    cases hm
    exact .inr rfl
  | insert k hk => cases hm
  | disconnect k hk => cases hm
  | remove k hk hunused => cases hm
  | close k hk => cases hm
  | _ => exact .inl hm

/-- The main thread closes what it has removed. -/
theorem ServerEffect.closing (h : ServerEffect s a s') {fd : ℕ} (hm : s'.main = .closing fd) :
    s.main = .closing fd ∨ s'.sockets fd = none := by
  cases h with
  | accept k hmain hfree => cases hm
  | insert k hk => cases hm
  | disconnect k hk => cases hm
  | remove k hk hunused =>
    cases hm
    exact .inr (update_self _ _ _)
  | close k hk => cases hm
  | _ => exact .inl hm

/-- What is sent goes to what the holder's descriptor refers to. -/
theorem ServerEffect.sent (h : ServerEffect s a s') {r : Sent} (hr : r ∈ s'.sent) :
    r ∈ s.sent ∨
      ∃ w, s.workers w = .holding r.job ∧ r.target = s.slots r.job.fd := by
  cases h with
  | send w job hhold =>
    rcases List.mem_append.mp hr with hr | hr
    · exact .inl hr
    · rw [List.mem_singleton.mp hr]
      exact .inr ⟨w, hhold, rfl⟩
  | _ => exact .inl hr

end Components

/-! ### Delivery -/

/-- No `accept` returns a descriptor that a queued or running job carries. -/
def FreshAccept (s : ServerState) (a : ServerAction) : Prop :=
  ∀ fd, a = .accept fd → ∀ j, Pending s j → j.fd ≠ fd

/-- Every write of an answer went to the connection its submission came from. -/
def AnswersToSender (s : ServerState) : Prop := ∀ r ∈ s.sent, r.target = .conn r.job.conn

/-- The delivery invariant. -/
structure DeliveryInv (s : ServerState) : Prop where
  pending : ∀ j, Pending s j →
    s.slots j.fd = .conn j.conn ∨ (s.sockets j.fd = none ∧ s.main ≠ .accepted j.fd)
  closing : ∀ fd, s.main = .closing fd → s.sockets fd = none
  holding : ∀ w j, s.workers w = .holding j → s.sockets j.fd = some true
  alone : ∀ w v j k, s.workers w = .holding j → s.workers v = .holding k → j.fd = k.fd → w = v
  sent : AnswersToSender s

theorem deliveryInv_start : DeliveryInv .start where
  pending := by
    intro j hj
    rcases hj with hj | ⟨w, hj | hj⟩ <;> cases hj
  closing := by
    intro fd h
    cases h
  holding := by
    intro w j h
    cases h
  alone := by
    intro w v j k h
    cases h
  sent := by
    intro r hr
    cases hr

/-- A descriptor a worker holds is open on the connection of the worker's job. -/
theorem DeliveryInv.held {s : ServerState} (hs : DeliveryInv s) {w : ℕ} {j : Job}
    (hw : s.workers w = .holding j) : s.slots j.fd = .conn j.conn := by
  rcases hs.pending j (.inr ⟨w, .inr hw⟩) with h | ⟨h, -⟩
  · exact h
  · rw [hs.holding w j hw] at h
    cases h

/-- One step keeps the delivery invariant. -/
theorem deliveryInv_step {s s' : ServerState} {a : ServerAction} (hs : DeliveryInv s)
    (hfresh : FreshAccept s a) (h : ServerEffect s a s') : DeliveryInv s' where
  pending := by
    intro j hj
    rcases h.pending hj with hj | ⟨-, hj⟩
    swap
    · exact .inl hj
    rcases hs.pending j hj with hconn | ⟨hnone, hmain⟩
    · rcases h.conn hconn with hconn | ⟨hclosing, hscan⟩
      · exact .inl hconn
      · refine .inr ⟨h.unknown (hs.closing _ hclosing) (by simp [hclosing]), by simp [hscan]⟩
    · refine .inr ⟨h.unknown hnone hmain, ?_⟩
      intro hacc
      rcases h.accepted hacc with hacc | hacc
      · exact hmain hacc
      · exact hfresh _ hacc j hj rfl
  closing := by
    intro fd hm
    rcases h.closing hm with hm | hnone
    · exact h.unknown (hs.closing fd hm) (by simp [hm])
    · exact hnone
  holding := by
    intro w j hw
    rcases h.holding hw with hold | ⟨-, -, -, hnew⟩
    · rcases h.inUse (hs.holding w j hold) with htrue | ⟨v, k, hv, hfd, hrun⟩
      · exact htrue
      · -- the holder that gave the descriptor back is this worker
        have hwv : v = w := hs.alone v w k j hv hold hfd
        rw [hwv, hw] at hrun
        cases hrun
    · exact hnew
  alone := by
    intro w v j k hw hv hfd
    rcases h.holding hw with hold | ⟨hact, -, hfalse, -⟩ <;>
      rcases h.holding hv with hold' | ⟨hact', -, hfalse', -⟩
    · exact hs.alone w v j k hold hold' hfd
    · rw [← hfd, hs.holding w j hold] at hfalse'
      cases hfalse'
    · rw [hfd, hs.holding v k hold'] at hfalse
      cases hfalse
    · rw [hact] at hact'
      cases hact'
      rfl
  sent := by
    intro r hr
    rcases h.sent hr with hr | ⟨w, hw, htarget⟩
    · exact hs.sent r hr
    · rw [htarget, hs.held hw]

/-- **Answers reach their sender.**  In every run in which no `accept` returns a descriptor that a
queued or running job carries, every answer is written to the connection its submission came
from. -/
theorem answers_reach_sender (size : ℕ) (s : ServerState)
    (hs : (server size).Reachable FreshAccept s) : AnswersToSender s := by
  have hinv : DeliveryInv s := System.Reachable.invariant DeliveryInv deliveryInv_start
    (fun s a s' hinv hok hstep => deliveryInv_step hinv hok (serverEffect_of_step hstep)) hs
  exact hinv.sent

/-! ### Two runs -/

/-- The submission of the example runs. -/
def exampleMsg : MessageSendJudge := ⟨ascii "7", [], ascii "cpp", ascii "1", 1000, 256⟩

/-- A run that accepts nothing meets the condition. -/
theorem meets_freshAccept (size : ℕ) (as : List ServerAction)
    (h : ∀ a ∈ as, ∀ fd, a ≠ .accept fd) : ∀ s, (server size).Meets FreshAccept s as := by
  induction as with
  | nil =>
    intro s
    exact trivial
  | cons a as ih =>
    intro s
    exact ⟨fun fd ha => absurd ha (h a (by simp) fd),
      fun s' _ => ih (fun b hb => h b (by simp [hb])) s'⟩

theorem answers_reach_sender_example :
    ∃ s, (server 1).Reachable FreshAccept s ∧
      s.sent = [⟨⟨4, 0, exampleMsg⟩, .conn 0⟩] ∧ AnswersToSender s := by
  have hrun : ∃ s, (server 1).run .start
      [.accept 4, .insert, .receive 4 exampleMsg, .dequeue 0, .acquire 0, .send 0] = some s ∧
      s.sent = [⟨⟨4, 0, exampleMsg⟩, .conn 0⟩] := ⟨_, rfl, rfl⟩
  have hmeets : (server 1).Meets FreshAccept .start
      [.accept 4, .insert, .receive 4 exampleMsg, .dequeue 0, .acquire 0, .send 0] := by
    refine ⟨?_, fun s₁ _ => meets_freshAccept 1 _ (by simp) s₁⟩
    intro fd _ j hj
    rcases hj with hj | ⟨w, hj | hj⟩ <;> cases hj
  obtain ⟨s, hrun, hsent⟩ := hrun
  have hreach : (server 1).Reachable FreshAccept s := System.Reachable.run .start _ hmeets hrun
  exact ⟨s, hreach, hsent, answers_reach_sender 1 s hreach⟩

/-- The peer of descriptor 4 leaves while its submission is queued, the next connection gets
descriptor 4, and the answer goes to it. -/
theorem answer_to_stranger :
    ∃ s, (server 1).Reachable System.anyStep s ∧ ¬ AnswersToSender s := by
  have hrun : ∃ s, (server 1).run .start
      [.accept 4, .insert, .receive 4 exampleMsg, .disconnect 4, .remove, .close,
        .accept 4, .insert, .dequeue 0, .acquire 0, .send 0] = some s ∧
      s.sent = [⟨⟨4, 0, exampleMsg⟩, .conn 1⟩] := ⟨_, rfl, rfl⟩
  obtain ⟨s, hrun, hsent⟩ := hrun
  refine ⟨s, System.Reachable.run .start _ (System.meets_anyStep _ _) hrun, ?_⟩
  intro h
  have htarget := h ⟨⟨4, 0, exampleMsg⟩, .conn 1⟩ (by rw [hsent]; exact List.mem_singleton_self _)
  cases htarget

end Rojcpp.Judge
