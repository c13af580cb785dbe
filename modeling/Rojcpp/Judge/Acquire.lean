import Rojcpp.Judge.Delivery

/-!
# Waiting for a descriptor

`write_message` constructs a `socketManagerRAII` for the descriptor of its job, which calls
`get_specified_fd` until that succeeds.  A descriptor in use is given back some day; one that the
main thread has removed from the map is not, and the worker calls forever.

To the server this adds which workers stand in that loop.  The theorem is about the runs in which
the main thread removes no descriptor that a queued or running job carries.
-/

namespace Rojcpp.Judge

open Rojcpp.Lib Function

/-! ### Workers in the loop -/

/-- The server, and which workers stand in the constructor of `socketManagerRAII`. -/
structure AcquireState where
  server : ServerState
  acquiring : ℕ → Bool

/-- A worker enters the constructor, or the server takes a step. -/
inductive AcquireAction where
  | construct (w : ℕ)
  | server (a : ServerAction)
  deriving DecidableEq, Repr

/-- Whether a worker still tries after its call of `get_specified_fd`. -/
def stillAcquiring : Worker → Bool
  | .running _ => true
  | .idle => false
  | .holding _ => false

/-- `get_specified_fd` is only called in the loop, and a job does not end there. -/
def inPlace (acquiring : ℕ → Bool) : ServerAction → Bool
  | .acquire w => acquiring w
  | .finish w => !acquiring w
  | _ => true

/-- Who stands in the loop after a step of the server. -/
def acquiringAfter (acquiring : ℕ → Bool) (t : ServerState) : ServerAction → ℕ → Bool
  | .acquire w => update acquiring w (stillAcquiring (t.workers w))
  | _ => acquiring

/-- One step. -/
def acquireStep (size : ℕ) (s : AcquireState) : AcquireAction → Option AcquireState
  | .construct w =>
    match s.server.workers w with
    | .running _ =>
      if s.acquiring w = false then some { s with acquiring := update s.acquiring w true } else none
    | _ => none
  | .server a =>
    if inPlace s.acquiring a = true then
      (serverStep size s.server a).map fun t => ⟨t, acquiringAfter s.acquiring t a⟩
    else none

/-- The server with `size` workers and their loops. -/
def acquireServer (size : ℕ) : System AcquireState AcquireAction :=
  ⟨⟨.start, fun _ => false⟩, acquireStep size⟩

/-- Every descriptor a worker is trying to acquire is in the map. -/
def AcquiredKnown (s : AcquireState) : Prop :=
  ∀ w j, s.acquiring w = true → s.server.workers w = .running j → s.server.sockets j.fd ≠ none

/-- The server moves by its own steps only. -/
theorem acquireStep_server {size : ℕ} {s s' : AcquireState} {a : AcquireAction}
    (h : acquireStep size s a = some s') :
    s'.server = s.server ∨ ∃ b, a = .server b ∧ serverStep size s.server b = some s'.server := by
  cases a with
  | construct w =>
    simp only [acquireStep] at h
    split at h
    · simp only [Option.ite_none_right_eq_some, Option.some.injEq] at h
      obtain ⟨-, rfl⟩ := h
      exact .inl rfl
    · cases h
  | server b =>
    simp only [acquireStep, Option.ite_none_right_eq_some, Option.map_eq_some_iff] at h
    obtain ⟨-, t, ht, rfl⟩ := h
    exact .inr ⟨b, rfl, ht⟩

/-! ### What keeps a descriptor known -/

section
variable {s s' : ServerState} {a : ServerAction}

/-- A known descriptor stays known, unless the main thread removes it. -/
theorem ServerEffect.known (h : ServerEffect s a s') {fd : ℕ} (hk : s.sockets fd ≠ none) :
    s'.sockets fd ≠ none ∨
      (a = .remove ∧ s.main = .removing fd ∧ s.sockets fd = some false ∧
        s'.main = .closing fd) := by
  cases h with
  | insert k hmain =>
    refine .inl ?_
    show s.sockets.insert k fd ≠ none
    rw [SocketMap.insert_apply]
    split
    · simp
    · exact hk
  | remove k hmain hunused =>
    by_cases hfd : fd = k
    · rw [hfd]
      exact .inr ⟨rfl, hmain, hunused, rfl⟩
    · refine .inl ?_
      show update s.sockets k none fd ≠ none
      rw [update_of_ne hfd]
      exact hk
  | acquire w job hrun hunused =>
    refine .inl ?_
    show update s.sockets job.fd (some true) fd ≠ none
    rw [update_apply]
    split
    · simp
    · exact hk
  | release w job hhold =>
    refine .inl ?_
    show s.sockets.unuse job.fd fd ≠ none
    rw [SocketMap.unuse_apply]
    split
    · simp
    · exact hk
  | _ => exact .inl hk

/-- A watched descriptor was watched before and is not being closed, or has just been accepted. -/
theorem ServerEffect.watched (h : ServerEffect s a s') {fd : ℕ} (hr : s'.readfds fd = true) :
    (s.readfds fd = true ∧ (s.main = .closing fd → s'.main = .closing fd)) ∨
      s'.main = .accepted fd := by
  cases h with
  | accept k hmain hfree =>
    have hread : update s.readfds k true fd = true := hr
    by_cases hfd : fd = k
    · exact .inr (by rw [hfd])
    · rw [update_of_ne hfd] at hread
      exact .inl ⟨hread, fun hclosing => by rw [hmain] at hclosing; cases hclosing⟩
  | close k hmain =>
    have hread : update s.readfds k false fd = true := hr
    by_cases hfd : fd = k
    · rw [hfd, update_self] at hread
      cases hread
    · rw [update_of_ne hfd] at hread
      refine .inl ⟨hread, fun hclosing => ?_⟩
      rw [hmain] at hclosing
      exact absurd (MainPhase.closing.inj hclosing).symm hfd
  | insert k hmain =>
    exact .inl ⟨hr, fun hclosing => by rw [hmain] at hclosing; cases hclosing⟩
  | disconnect k hmain =>
    exact .inl ⟨hr, fun hclosing => by rw [hmain] at hclosing; cases hclosing⟩
  | remove k hmain hunused =>
    exact .inl ⟨hr, fun hclosing => by rw [hmain] at hclosing; cases hclosing⟩
  | _ => exact .inl ⟨hr, fun hclosing => hclosing⟩

/-- An accepted descriptor is inserted before the main thread does anything else. -/
theorem ServerEffect.inserted (h : ServerEffect s a s') {fd : ℕ} (hm : s.main = .accepted fd) :
    s'.main = .accepted fd ∨ s'.sockets fd ≠ none := by
  cases h with
  | insert k hmain =>
    rw [hm] at hmain
    refine .inr ?_
    show s.sockets.insert k fd ≠ none
    rw [← MainPhase.accepted.inj hmain, SocketMap.insert_apply]
    split
    · simp
    · rename_i hnot
      intro hnone
      exact hnot ⟨rfl, hnone⟩
  | accept k hmain hfree => rw [hm] at hmain; cases hmain
  | disconnect k hmain => rw [hm] at hmain; cases hmain
  | remove k hmain hunused => rw [hm] at hmain; cases hmain
  | close k hmain => rw [hm] at hmain; cases hmain
  | _ => exact .inl hm

/-- A job that becomes pending is received by the main thread while it scans a watched
descriptor. -/
theorem pending_step {size : ℕ} (h : serverStep size s a = some s') {j : Job}
    (hj : Pending s' j) :
    Pending s j ∨ (s.main = .scanning ∧ s.readfds j.fd = true ∧ s'.sockets = s.sockets) := by
  have heffect := serverEffect_of_step h
  rcases hj with hj | ⟨w, hj | hj⟩
  · cases a with
    | receive fd msg =>
      simp only [serverStep] at h
      split at h
      · simp only [Option.ite_none_right_eq_some, Option.some.injEq] at h
        obtain ⟨⟨hmain, hread⟩, rfl⟩ := h
        cases List.mem_append.mp hj with
        | inl hj => exact .inl (.inl hj)
        | inr hj =>
          rw [List.mem_singleton.mp hj]
          exact .inr ⟨hmain, hread, rfl⟩
      · cases h
    | dequeue v =>
      cases heffect with
      | dequeue v job queue hqueue hidle =>
        exact .inl (.inl (hqueue ▸ List.mem_cons_of_mem _ hj))
    | _ =>
      cases heffect with
      | _ => exact .inl (.inl hj)
  · exact .inl (heffect.running hj)
  · cases heffect.holding hj with
    | inl hold => exact .inl (.inr ⟨w, .inr hold⟩)
    | inr hnew => exact .inl (.inr ⟨w, .inl hnew.2.1⟩)

end

/-! ### Removing only what nobody needs -/

/-- The main thread removes no descriptor that a queued or running job carries. -/
def RemovesUnneeded (s : AcquireState) (a : AcquireAction) : Prop :=
  a = .server .remove → ∀ fd, s.server.main = .removing fd → s.server.sockets fd = some false →
    ∀ j, Pending s.server j → j.fd ≠ fd

/-- The invariant: the descriptors of all pending jobs are known, and what is watched is known
between its `accept` and its `close`. -/
structure KnownInv (s : ServerState) : Prop where
  pending : ∀ j, Pending s j → s.sockets j.fd ≠ none
  watched : ∀ fd, s.readfds fd = true →
    s.sockets fd ≠ none ∨ s.main = .accepted fd ∨ s.main = .closing fd

theorem knownInv_start : KnownInv .start where
  pending := by
    intro j hj
    rcases hj with hj | ⟨w, hj | hj⟩ <;> cases hj
  watched := by
    intro fd h
    cases h

/-- One step keeps the invariant. -/
theorem knownInv_step {size : ℕ} {s s' : ServerState} {a : ServerAction} (hs : KnownInv s)
    (hok : a = .remove → ∀ fd, s.main = .removing fd → s.sockets fd = some false →
      ∀ j, Pending s j → j.fd ≠ fd)
    (h : serverStep size s a = some s') : KnownInv s' where
  pending := by
    intro j hj
    cases pending_step h hj with
    | inl hold =>
      cases (serverEffect_of_step h).known (hs.pending j hold) with
      | inl hknown => exact hknown
      | inr hremoved => exact absurd rfl (hok hremoved.1 j.fd hremoved.2.1 hremoved.2.2.1 j hold)
    | inr hnew =>
      obtain ⟨hscan, hread, hsame⟩ := hnew
      rw [hsame]
      rcases hs.watched j.fd hread with hknown | hmain | hmain
      · exact hknown
      · rw [hscan] at hmain; cases hmain
      · rw [hscan] at hmain; cases hmain
  watched := by
    intro fd hr
    cases (serverEffect_of_step h).watched hr with
    | inl hold =>
      rcases hs.watched fd hold.1 with hknown | hmain | hmain
      · cases (serverEffect_of_step h).known hknown with
        | inl hknown => exact .inl hknown
        | inr hremoved => exact .inr (.inr hremoved.2.2.2)
      · cases (serverEffect_of_step h).inserted hmain with
        | inl hmain => exact .inr (.inl hmain)
        | inr hknown => exact .inl hknown
      · exact .inr (.inr (hold.2 hmain))
    | inr hnew => exact .inr (.inl hnew)

/-- **No worker waits for a descriptor that is gone**, in every run in which the main thread removes
no descriptor that a queued or running job carries. -/
theorem acquired_known (size : ℕ) (s : AcquireState)
    (hs : (acquireServer size).Reachable RemovesUnneeded s) : AcquiredKnown s := by
  have hinv : KnownInv s.server := System.Reachable.invariant (fun s => KnownInv s.server)
    knownInv_start (fun s a s' hinv hok hstep => by
      cases acquireStep_server hstep with
      | inl hsame => rw [hsame]; exact hinv
      | inr hmoved =>
        obtain ⟨b, hb, hstep⟩ := hmoved
        refine knownInv_step hinv ?_ hstep
        intro hremove
        exact hok (by rw [hb, hremove])) hs
  intro w j _ hrun
  exact hinv.pending j (.inr ⟨w, .inl hrun⟩)

/-- A worker that tries to acquire a descriptor that is gone tries again. -/
theorem acquire_unknown {size : ℕ} {s : AcquireState} {w : ℕ} {j : Job}
    (hw : s.acquiring w = true) (hrun : s.server.workers w = .running j)
    (hgone : s.server.sockets j.fd = none) :
    acquireStep size s (.server (.acquire w)) = some s := by
  have hstep : serverStep size s.server (.acquire w) = some s.server := by
    simp only [serverStep, hrun, SocketMap.getSpecifiedFd, hgone]
    rfl
  have hsame : update s.acquiring w true = s.acquiring := by
    rw [← hw]
    exact update_eq_self w s.acquiring
  simp only [acquireStep, inPlace, hw, if_true, hstep, Option.map_some, acquiringAfter, hrun,
    stillAcquiring, hsame]

/-- **A removal that the condition excludes strands its worker**: as soon as that tries to answer,
its descriptor is gone. -/
theorem removal_strands {size : ℕ} {s : AcquireState} {w : ℕ} {j : Job}
    (hmain : s.server.main = .removing j.fd) (hunused : s.server.sockets j.fd = some false)
    (hrun : s.server.workers w = .running j) :
    ∃ as s', (acquireServer size).run s as = some s' ∧ ¬ AcquiredKnown s' := by
  have hremove : ∃ t, acquireStep size s (.server .remove) = some ⟨t, s.acquiring⟩ ∧
      t.workers w = .running j ∧ t.sockets j.fd = none := by
    refine ⟨{ s.server with
      sockets := update s.server.sockets j.fd none
      main := .closing j.fd }, ?_, hrun, update_self _ _ _⟩
    simp only [acquireStep, inPlace, serverStep, hmain, SocketMap.remove, hunused, if_true,
      Option.map_some, acquiringAfter]
  obtain ⟨t, ht, hworker, hgone⟩ := hremove
  by_cases hw : s.acquiring w = true
  · refine ⟨[.server .remove], ⟨t, s.acquiring⟩, ?_, fun hknown => hknown w j hw hworker hgone⟩
    show (acquireStep size s (.server .remove)).bind _ = _
    rw [ht]
    rfl
  · have hfalse : s.acquiring w = false := Bool.eq_false_iff.mpr hw
    refine ⟨[.server .remove, .construct w], ⟨t, update s.acquiring w true⟩, ?_,
      fun hknown => hknown w j (update_self _ _ _) hworker hgone⟩
    have hconstruct : acquireStep size ⟨t, s.acquiring⟩ (.construct w) =
        some ⟨t, update s.acquiring w true⟩ := by
      simp only [acquireStep, hworker, hfalse, if_true]
    show (acquireStep size s (.server .remove)).bind _ = _
    rw [ht]
    show (acquireStep size ⟨t, s.acquiring⟩ (.construct w)).bind _ = _
    rw [hconstruct]
    rfl

/-! ### A client that leaves -/

/-- A run in which the client stays. -/
def patientActions : List AcquireAction :=
  [.server (.accept 4), .server .insert, .server (.receive 4 exampleMsg), .server (.dequeue 0),
    .construct 0]

/-- A run that removes nothing meets the condition. -/
theorem meets_removesUnneeded (size : ℕ) (as : List AcquireAction)
    (h : AcquireAction.server .remove ∉ as) :
    ∀ s, (acquireServer size).Meets RemovesUnneeded s as := by
  induction as with
  | nil => exact fun _ => trivial
  | cons a as ih =>
    intro s
    refine ⟨fun ha => absurd ha.symm fun h' => h (by simp [h']), fun s' _ => ih ?_ s'⟩
    exact fun hmem => h (List.mem_cons_of_mem _ hmem)

theorem acquired_known_patient : ∃ s, (acquireServer 1).Reachable RemovesUnneeded s ∧
    s.acquiring 0 = true ∧ AcquiredKnown s := by
  have hrun : ∃ s, (acquireServer 1).run (acquireServer 1).start patientActions = some s ∧
      s.acquiring 0 = true := ⟨_, rfl, rfl⟩
  obtain ⟨s, hrun, hw⟩ := hrun
  have hreach : (acquireServer 1).Reachable RemovesUnneeded s :=
    System.Reachable.run .start _ (meets_removesUnneeded 1 _ (by decide) _) hrun
  exact ⟨s, hreach, hw, acquired_known 1 s hreach⟩

/-- **A client that leaves while its submission is queued** leaves the only worker in its loop. -/
theorem worker_waits_forever : ¬ ∀ (size : ℕ) (s : AcquireState),
    (acquireServer size).Reachable System.anyStep s → AcquiredKnown s := by
  intro hall
  have hrun : ∃ s, (acquireServer 1).run (acquireServer 1).start
      [.server (.accept 4), .server .insert, .server (.receive 4 exampleMsg),
        .server (.disconnect 4), .server .remove, .server .close, .server (.dequeue 0),
        .construct 0] = some s ∧ s.acquiring 0 = true ∧
      s.server.workers 0 = .running ⟨4, 0, exampleMsg⟩ ∧ s.server.sockets 4 = none :=
    ⟨_, rfl, rfl, rfl, rfl⟩
  obtain ⟨s, hrun, hw, hjob, hgone⟩ := hrun
  have hreach : (acquireServer 1).Reachable System.anyStep s :=
    System.Reachable.run .start _ (System.meets_anyStep _ _) hrun
  exact hall 1 s hreach 0 _ hw hjob hgone

end Rojcpp.Judge
