import Rojcpp.Tinyasync.Readiness

/-!
# An end of stream that nobody reads

The peer has finished, and the event of its last bytes reports the end as well.  The callback's read
is short, so that it takes the bytes, leaves the end where it is and clears `m_ready_to_recv`.  The
next reader finds the flag clear and is suspended without a receive; there is no event left, and
none will come, for the peer has nothing more to send.

`end_lost` says how long such a reader sleeps: until an event comes to the connection after all, it
is closed, or the reader's time is over.
-/

namespace Rojcpp.Tinyasync

open Rojcpp.Lib Function

/-! ### What the loop goes through -/

section
variable {multiple : Bool} {s s' : IoCtx} {act : Action} {a b c : ℕ}

/-- A read that begins changes neither the tasks nor the loop. -/
theorem receive_spec {w : AsyncReceiveAwaiter} {r : Recv} {now : ℕ}
    (h : receive s a w r now = some s') :
    s'.taskQueue = s.taskQueue ∧ s'.control = s.control := by
  have hsuspend : ∀ conn, (suspend { s with timeQueue := s.timeQueue.init (some a) } a w conn
      now).taskQueue = s.taskQueue ∧ (suspend { s with timeQueue := s.timeQueue.init (some a) } a w
        conn now).control = s.control := by
    intro conn
    rw [suspend]
    split
    · exact ⟨rfl, rfl⟩
    · exact ⟨rfl, rfl⟩
  rw [receive] at h
  split at h
  · cases h
  · split at h
    · exact (awaitResume_spec h).2.2
    · split at h
      · split at h
        · exact (awaitResume_spec h).2.2
        · cases h
          exact hsuspend _
        · cases h
          exact ⟨rfl, rfl⟩
      · cases h
        exact hsuspend _

/-- **What a step gives the loop to do**: the readers of a connection, when its event is handled or
its closing is; and the closing of a connection. -/
structure Turn (s s' : IoCtx) (act : Action) : Prop where
  resumes : ∀ b ∈ s'.control.resumes, b ∈ s.control.resumes ∨ ∃ d, ∃ conn ∈ s.conns d,
    b ∈ conn.recvAwaiter ∧ (act = .readable d ∨ PostTask.close d ∈ s.taskQueue)
  closes : ∀ d, PostTask.close d ∈ s'.taskQueue → PostTask.close d ∈ s.taskQueue ∨ act = .close d

theorem Turn.same (hcontrol : s'.control = s.control) (htasks : s'.taskQueue = s.taskQueue) :
    Turn s s' act where
  resumes _ hb := .inl (hcontrol ▸ hb)
  closes _ hd := .inl (htasks ▸ hd)

/-- The loop goes on with some of what it had to do. -/
theorem Turn.less (hresumes : s'.control.resumes ⊆ s.control.resumes)
    (htasks : s'.taskQueue ⊆ s.taskQueue) : Turn s s' act where
  resumes _ hb := .inl (hresumes hb)
  closes _ hd := .inl (htasks hd)

theorem turn_pop (h : step multiple s .pop = some s') : Turn s s' .pop := by
  rw [step] at h
  split at h
  · split at h
    · cases h
      exact .less (List.nil_subset _) (List.Subset.refl _)
    · rename_i htasks
      cases h
      refine .less (List.nil_subset _) ?_
      rw [htasks]
      exact List.subset_cons_self _ _
    · rename_i a tasks htasks
      rw [onTimeout] at h
      split at h
      · cases h
      · split at h
        · cases h
        · obtain ⟨-, -, -, hafter, hcontrol⟩ := resume_spec h
          refine .less ?_ ?_
          · rw [hcontrol]
            exact List.nil_subset _
          · rw [hafter, htasks]
            exact List.subset_cons_self _ _
    · rename_i c tasks htasks
      split at h
      · cases h
      · rename_i conn hconn
        cases h
        refine ⟨fun b hb => .inr ⟨c, conn, hconn, hb, .inr ?_⟩, fun d hd => .inl ?_⟩
        · rw [htasks]
          exact List.mem_cons_self
        · rw [htasks]
          exact List.mem_cons_of_mem _ hd
  · cases h

theorem turn_recv {r : Recv} (h : step multiple s (.recv r) = some s') : Turn s s' (.recv r) := by
  rw [step] at h
  split at h
  · rename_i c a rest hcontrol
    have hrest : rest ⊆ s.control.resumes := by
      rw [hcontrol]
      exact List.subset_cons_self _ _
    split at h
    · cases h
      exact .less (List.nil_subset _) (List.Subset.refl _)
    · rename_i n w hw
      obtain ⟨-, -, -, htasks, hafter⟩ := resume_spec h
      refine .less ?_ (htasks ▸ List.Subset.refl _)
      rw [hafter]
      by_cases hshort : n < w.bufferSize
      · rw [if_pos hshort]
        exact List.nil_subset _
      · rw [if_neg hshort]
        exact hrest
    · obtain ⟨-, -, -, htasks, hafter⟩ := resume_spec h
      refine .less ?_ (htasks ▸ List.Subset.refl _)
      rw [hafter]
      exact hrest
    · cases h
  · cases h

theorem turn_of_step (h : step multiple s act = some s') : Turn s s' act := by
  cases act with
  | connect c =>
    rw [step] at h
    split at h
    · cases h
    · cases h
      exact .same rfl rfl
  | receive a c n timeOutFlag r now =>
    rw [step] at h
    split at h
    · cases h
    · obtain ⟨htasks, hcontrol⟩ := receive_spec h
      exact .same hcontrol htasks
  | shutdownRecv c =>
    rw [step] at h
    split at h
    · cases h
    · cases h
      exact .same rfl rfl
  | close c =>
    rw [step] at h
    split at h
    · cases h
    · rw [Option.ite_none_right_eq_some] at h
      obtain ⟨-, h⟩ := h
      cases h
      refine ⟨fun b hb => .inl hb, fun d hd => ?_⟩
      rw [List.mem_append, List.mem_singleton, PostTask.close.injEq] at hd
      exact hd.imp id fun hd => congrArg _ hd.symm
  | post =>
    cases h
    refine ⟨fun b hb => .inl hb, fun d hd => .inl ?_⟩
    simpa using hd
  | clock now =>
    rw [step] at h
    split at h
    · cases h
      exact .less (List.nil_subset _) (List.Subset.refl _)
    · cases h
  | expire =>
    rw [step] at h
    split at h
    · split at h
      · cases h
        exact .less (List.nil_subset _) (List.Subset.refl _)
      · split at h
        · cases h
        · split at h
          · split at h
            · cases h
            · cases h
              refine ⟨fun b hb => .inl hb, fun d hd => .inl ?_⟩
              simpa using hd
          · cases h
            exact .less (List.nil_subset _) (List.Subset.refl _)
    · cases h
  | pop => exact turn_pop h
  | wake =>
    rw [step] at h
    split at h
    · rename_i hcontrol
      obtain ⟨-, -, -, htasks, hafter⟩ := resume_spec h
      refine .less ?_ (htasks ▸ List.Subset.refl _)
      rw [hafter, hcontrol]
      exact List.subset_cons_self _ _
    · cases h
  | readable c =>
    rw [step] at h
    split at h
    · split at h
      · cases h
      · rename_i conn hconn
        split at h
        · cases h
          exact ⟨fun b hb => .inr ⟨c, conn, hconn, hb, .inl rfl⟩, fun d hd => .inl hd⟩
        · cases h
          exact .same rfl rfl
    · cases h
  | recv r => exact turn_recv h
  | done =>
    rw [step] at h
    split at h
    · cases h
      exact .less (List.nil_subset _) (List.Subset.refl _)
    · cases h
      exact .less (List.nil_subset _) (List.Subset.refl _)
    · cases h
      exact .less (List.nil_subset _) (List.Subset.refl _)
    · split at h
      · cases h
      · cases h
        exact .less (List.nil_subset _) (List.Subset.refl _)
    · cases h

theorem resumes_of_failing (h : failing s act = some a) : a ∈ s.control.resumes := by
  unfold failing at h
  split at h
  · split at h
    · rename_i hcontrol
      cases h
      rw [hcontrol]
      exact List.mem_cons_self
    · cases h
  · split at h
    · rename_i hcontrol
      cases h
      rw [hcontrol]
      exact List.mem_cons_self
    · cases h
  · cases h

/-- An awaiter goes on when the loop resumes it, or when its time is over. -/
theorem sleeps_of_step (h : step multiple s act = some s') (hsleeps : s.Sleeps a c)
    (hresumes : a ∉ s.control.resumes)
    (hpop : act = .pop → s.taskQueue.head? ≠ some (.timeout a)) : s'.Sleeps a c := by
  obtain ⟨w, hw, hsuspended, hconn⟩ := hsleeps
  have hkeeps : ∀ b v, b ≠ a → s'.awaiters = update s.awaiters b v → s'.Sleeps a c := by
    intro b v hba hawaiters
    refine ⟨w, ?_, hsuspended, hconn⟩
    rw [hawaiters, update_of_ne hba.symm]
    exact hw
  have hnew : ∀ b, s.awaiters b = none → b ≠ a := by
    intro b hnone hba
    rw [hba, hw] at hnone
    cases hnone
  cases effect_of_step h with
  | keeps _ hawaiters _ _ => exact ⟨w, by rw [hawaiters]; exact hw, hsuspended, hconn⟩
  | passes b v hnone _ _ hawaiters _ _ => exact hkeeps b _ (hnew b hnone) hawaiters
  | suspends b v hnone _ _ _ hawaiters _ _ => exact hkeeps b _ (hnew b hnone) hawaiters
  | expires b _ _ _ hawaiters _ _ => exact ⟨w, by rw [hawaiters]; exact hw, hsuspended, hconn⟩
  | receives b v hresumed _ _ _ hb =>
    obtain ⟨v', -, hawaiters⟩ := hresumed.after
    exact hkeeps b _ (fun hba => hresumes (hba ▸ hb)) hawaiters
  | timesOut b v hresumed _ htasks _ hact =>
    obtain ⟨v', -, hawaiters⟩ := hresumed.after
    refine hkeeps b _ (fun hba => hpop hact ?_) hawaiters
    rw [htasks, hba, List.head?_cons]
  | fails b v hfailing hresumed _ _ _ =>
    obtain ⟨v', -, hawaiters⟩ := hresumed.after
    exact hkeeps b _ (fun hba => hresumes (hba ▸ resumes_of_failing hfailing)) hawaiters

/-- An awaiter stays one. -/
theorem isSome_of_step (h : step multiple s act = some s') (ha : (s.awaiters a).isSome = true) :
    (s'.awaiters a).isSome = true := by
  have hupdate : ∀ b w, s'.awaiters = update s.awaiters b (some w) →
      (s'.awaiters a).isSome = true := by
    intro b w hawaiters
    rw [hawaiters]
    by_cases hab : a = b
    · rw [hab, update_self]
      rfl
    · rw [update_of_ne hab]
      exact ha
  cases effect_of_step h with
  | keeps _ hawaiters _ _ => rwa [hawaiters]
  | passes b w _ _ _ hawaiters _ _ => exact hupdate b w hawaiters
  | suspends b w _ _ _ _ hawaiters _ _ => exact hupdate b w hawaiters
  | expires b _ _ _ hawaiters _ _ => rwa [hawaiters]
  | receives b w hresumed _ _ _ _ =>
    obtain ⟨w', -, hawaiters⟩ := hresumed.after
    exact hupdate b w' hawaiters
  | timesOut b w hresumed _ _ _ _ =>
    obtain ⟨w', -, hawaiters⟩ := hresumed.after
    exact hupdate b w' hawaiters
  | fails b w _ hresumed _ _ _ =>
    obtain ⟨w', -, hawaiters⟩ := hresumed.after
    exact hupdate b w' hawaiters

/-- The connection has lost its handle. -/
def IoCtx.Closed (s : IoCtx) (c : ℕ) : Prop := ∃ conn ∈ s.conns c, conn.connHandle = false

/-- A closed connection stays closed. -/
theorem Move.closed (h : Move s s' act) (hc : s.Closed c) : s'.Closed c := by
  obtain ⟨con, hcon, hhandle⟩ := hc
  have hkeeps : ∀ d conn', (d = c → conn'.connHandle = false) →
      s'.conns = update s.conns d (some conn') → s'.Closed c := by
    intro d conn' hd hconns
    rw [IoCtx.Closed, hconns]
    by_cases hcd : c = d
    · rw [hcd, update_self]
      exact ⟨conn', rfl, hd hcd.symm⟩
    · rw [update_of_ne hcd]
      exact ⟨con, hcon, hhandle⟩
  have hmarked : ∀ d conn conn', Marked s s' d conn conn' → s'.Closed c := by
    intro d conn conn' hm
    refine hkeeps d conn' (fun hd => Bool.eq_false_iff.mpr fun hopen => ?_) hm.after
    have hbefore := hm.before
    rw [hd, hcon] at hbefore
    cases hbefore
    rw [hm.handle hopen] at hhandle
    cases hhandle
  have hfreed : ∀ b w, Freed s s' b w → s'.Closed c := by
    intro b w hf
    obtain ⟨conn, l, hbefore, hafter, -⟩ := hf.conns
    refine hkeeps w.conn _ (fun hd => ?_) hafter
    rw [hd, hcon] at hbefore
    cases hbefore
    exact hhandle
  cases h with
  | @connects d hnew hconns _ _ =>
    refine hkeeps d _ (fun hd => ?_) hconns
    rw [hd, hcon] at hnew
    cases hnew
  | passes _ _ _ hconns _ _ => exact ⟨con, by rw [hconns]; exact hcon, hhandle⟩
  | @suspends _ d _ _ _ _ _ conn _ _ _ hbefore hopen _ _ hconns _ _ =>
    refine hkeeps d _ (fun hd => ?_) hconns
    rw [hd, hcon] at hbefore
    cases hbefore
    exact hhandle
  | begins conn hm _ _ => exact hmarked _ _ _ hm
  | dries conn hm _ _ => exact hmarked _ _ _ hm
  | receives w hf _ _ => exact hfreed _ _ hf
  | leaves conn hm _ _ => exact hmarked _ _ _ hm
  | marks conn conn' hm _ _ => exact hmarked _ _ _ hm
  | frees b w hf _ _ => exact hfreed _ _ hf
  | turns hconns _ _ _ => exact ⟨con, by rw [hconns]; exact hcon, hhandle⟩

/-- `close` takes the handle away. -/
theorem closed_of_close (h : step multiple s (.close c) = some s') : s'.Closed c := by
  rw [step] at h
  split at h
  · cases h
  · rw [Option.ite_none_right_eq_some] at h
    obtain ⟨-, h⟩ := h
    cases h
    exact ⟨_, update_self .., rfl⟩

end

/-! ### Among the sockets -/

/-- Who is about to be resumed is an awaiter, and a connection is closed before the task of its
closing comes. -/
structure Settled (s : IoCtx) : Prop where
  named : ∀ b ∈ s.control.resumes, (s.awaiters b).isSome = true
  closed : ∀ c, PostTask.close c ∈ s.taskQueue → s.Closed c

theorem Settled.step {multiple : Bool} {s s' : IoCtx} {act : Action} (hs : Settled s)
    (hreaders : Readers s) (h : step multiple s act = some s') : Settled s' where
  named b hb := by
    refine isSome_of_step h ?_
    obtain hb | ⟨d, conn, hconn, hmem, -⟩ := (turn_of_step h).resumes b hb
    · exact hs.named b hb
    · obtain ⟨w, hw, -⟩ := hreaders.belongs d conn hconn b hmem
      exact Option.isSome_of_mem hw
  closed c hc := by
    obtain hc | rfl := (turn_of_step h).closes c hc
    · exact (move_of_step hreaders h).closed (hs.closed c hc)
    · exact closed_of_close h

/-- The awaiter is suspended, and the loop has no event of its connection, no closing of it, and no
resumption of the awaiter to come to. -/
structure Net.Stranded (s : Net) (a c : ℕ) : Prop where
  sleeps : s.loop.Sleeps a c
  quiet : ¬s.Pending c
  closing : PostTask.close c ∉ s.loop.taskQueue
  resumes : a ∉ s.loop.control.resumes

/-- Nothing comes to the awaiter: no event to its connection, no `close`, and not the end of its
time; and the connection gets no second reader. -/
def Undisturbed (a c : ℕ) (s : Net) (e : Event) : Prop :=
  OneReader s e ∧
    match e with
    | .arrive d _ => d ≠ c
    | .finish d => d ≠ c
    | .stir d => d ≠ c
    | .run (.close d) => d ≠ c
    | .run .pop => s.loop.taskQueue.head? ≠ some (.timeout a)
    | _ => True

section
variable {multiple : Bool} {s s' : Net} {a b c : ℕ} {act : Action} {e : Event}

/-- A step among the sockets is a step of the loop, or none of it. -/
theorem loop_of_step (h : Net.step multiple s e = some s') :
    s'.loop = s.loop ∨ ∃ act, step multiple s.loop act = some s'.loop := by
  have hmap : ∀ {act} {f : IoCtx → Net}, (∀ loop, (f loop).loop = loop) →
      (step multiple s.loop act).map f = some s' →
      ∃ act, step multiple s.loop act = some s'.loop := by
    intro act f hf h
    obtain ⟨loop, hloop, rfl⟩ := Option.map_eq_some_iff.mp h
    exact ⟨act, by rw [hf, hloop]⟩
  cases e with
  | connect c => exact .inr (hmap (fun _ => rfl) h)
  | receive a c n timeOutFlag fails now => exact .inr (hmap (fun _ => rfl) h)
  | arrive c n =>
    cases h
    exact .inl rfl
  | finish c =>
    cases h
    exact .inl rfl
  | stir c =>
    cases h
    exact .inl rfl
  | poll cs =>
    rw [Net.step, Option.ite_none_right_eq_some] at h
    exact .inr (hmap (fun _ => rfl) h.2)
  | readable =>
    rw [Net.step] at h
    split at h
    · cases h
    · exact .inr (hmap (fun _ => rfl) h)
  | recv fails =>
    rw [Net.step] at h
    split at h
    · split at h
      · cases h
      · exact .inr (hmap (fun _ => rfl) h)
    · cases h
  | run act =>
    rw [Net.step, Option.ite_none_right_eq_some] at h
    exact .inr (hmap (fun _ => rfl) h.2)

theorem settled_of_reachable (h : (net multiple).Reachable OneReader s) : Settled s.loop := by
  refine (h.invariant (fun s => Woken s ∧ Settled s.loop) ⟨woken_start multiple, ?_⟩ ?_).2
  · exact ⟨fun _ h => (by cases h), fun _ h => (by cases h)⟩
  · intro s e s' hs hone hstep
    refine ⟨hs.1.step hone hstep, ?_⟩
    obtain hloop | ⟨act, hloop⟩ := loop_of_step hstep
    · rw [hloop]
      exact hs.2
    · exact hs.2.step hs.1.readers hloop

/-- A step of the loop. -/
theorem Net.Stranded.turn (hs : s.Stranded a c) (hreaders : Readers s.loop)
    (h : Tinyasync.step multiple s.loop act = some s'.loop) (hreadable : act ≠ .readable c)
    (hclose : act ≠ .close c)
    (hpop : act = .pop → s.loop.taskQueue.head? ≠ some (.timeout a)) (hquiet : ¬s'.Pending c) :
    s'.Stranded a c where
  sleeps := sleeps_of_step h hs.sleeps hs.resumes hpop
  quiet := hquiet
  closing hc := ((turn_of_step h).closes c hc).elim hs.closing hclose
  resumes ha := by
    obtain ha | ⟨d, conn, hconn, hmem, hact⟩ := (turn_of_step h).resumes a ha
    · exact hs.resumes ha
    · -- the awaiter is a reader of its own connection only
      obtain ⟨w, hw, rfl⟩ := hreaders.belongs d conn hconn a hmem
      obtain ⟨v, hv, -, rfl⟩ := hs.sleeps
      cases hw.symm.trans hv
      exact hact.elim hreadable hs.closing

/-- **One step** that does not disturb the awaiter. -/
theorem Net.Stranded.step (hs : s.Stranded a c) (hwoken : Woken s) (hok : Undisturbed a c s e)
    (h : Net.step multiple s e = some s') : s'.Stranded a c := by
  have hreaders := hwoken.readers
  have hedge : ¬(s.sock c).edge = true := fun h => hs.quiet (.inl h)
  have hupdate : ∀ {d : ℕ} {k : Sock} {loop : IoCtx}, (d = c → k.edge = (s.sock c).edge) →
      ¬Net.Pending { s with loop := loop, sock := update s.sock d k } c := by
    intro d k loop hd hpending
    refine hs.quiet (hpending.imp (fun hset => ?_) id)
    have hset : (update s.sock d k c).edge = true := hset
    by_cases hdc : c = d
    · subst hdc
      rwa [update_self, hd rfl] at hset
    · rwa [update_of_ne hdc] at hset
  have hother : ∀ {d : ℕ} {k : Sock}, d ≠ c →
      Net.Stranded { s with sock := update s.sock d k } a c := fun hd =>
    ⟨hs.sleeps, hupdate fun hdc => absurd hdc hd, hs.closing, hs.resumes⟩
  cases e with
  | connect d =>
    obtain ⟨loop, hloop, rfl⟩ := Option.map_eq_some_iff.mp h
    refine hs.turn hreaders hloop (fun h => by cases h) (fun h => by cases h)
      (fun h => by cases h) (hupdate fun hd => ?_)
    obtain ⟨w, hw, hsuspended, rfl⟩ := hs.sleeps
    obtain ⟨-, conn, hconn, -⟩ := hreaders.sleeps a w hw hsuspended
    rw [hd, Tinyasync.step, hconn] at hloop
    cases hloop
  | receive b d n timeOutFlag fails now =>
    obtain ⟨loop, hloop, rfl⟩ := Option.map_eq_some_iff.mp h
    refine hs.turn hreaders hloop (fun h => by cases h) (fun h => by cases h)
      (fun h => by cases h) ?_
    split
    · exact hupdate fun hd => hd ▸ Sock.take_edge
    · exact hs.quiet
  | arrive d n =>
    cases h
    exact hother hok.2
  | finish d =>
    cases h
    exact hother hok.2
  | stir d =>
    cases h
    exact hother hok.2
  | poll cs =>
    rw [Net.step, Option.ite_none_right_eq_some] at h
    obtain ⟨⟨hempty, -, hcs⟩, h⟩ := h
    obtain ⟨loop, hloop, rfl⟩ := Option.map_eq_some_iff.mp h
    have hc : c ∉ cs := fun hmem => hedge (hcs c hmem).1
    refine hs.turn hreaders hloop (fun h => by cases h) (fun h => by cases h) (fun _ => ?_) ?_
    · rw [hempty]
      exact fun h => by cases h
    · rw [Net.Pending]
      dsimp only
      rw [if_neg hc, List.mem_filter]
      exact fun hpending => hpending.elim hedge fun hmem => hc hmem.1
  | readable =>
    rw [Net.step] at h
    split at h
    · cases h
    · rename_i d batch hbatch
      obtain ⟨loop, hloop, rfl⟩ := Option.map_eq_some_iff.mp h
      have hmem : ∀ x, x = d ∨ x ∈ batch → x ∈ s.batch := by
        intro x hx
        rw [hbatch]
        exact List.mem_cons.mpr hx
      refine hs.turn hreaders hloop (fun hd => ?_) (fun h => by cases h) (fun h => by cases h)
        fun hpending => ?_
      · cases hd
        exact hs.quiet (.inr (hmem c (.inl rfl)))
      · exact hs.quiet (hpending.imp id fun hx => hmem c (.inr hx))
  | recv fails =>
    rw [Net.step] at h
    split at h
    · split at h
      · cases h
      · obtain ⟨loop, hloop, rfl⟩ := Option.map_eq_some_iff.mp h
        exact hs.turn hreaders hloop (fun h => by cases h) (fun h => by cases h)
          (fun h => by cases h) (hupdate fun hd => hd ▸ Sock.drain_edge)
    · cases h
  | run act =>
    rw [Net.step, Option.ite_none_right_eq_some] at h
    obtain ⟨hallows, h⟩ := h
    obtain ⟨loop, hloop, rfl⟩ := Option.map_eq_some_iff.mp h
    refine hs.turn hreaders hloop (fun hact => ?_) (fun hact => ?_) (fun hact => ?_) hs.quiet
    · subst hact
      cases hallows
    · subst hact
      exact hok.2 rfl
    · subst hact
      exact hok.2

/-- A read that begins with the flag clear suspends its awaiter, without a receive. -/
theorem stranded_of_receive {conn : ConnImpl} {n now : ℕ} {timeOutFlag fails : Bool}
    (hsettled : Settled s.loop) (hconn : s.loop.conns c = some conn)
    (hopen : conn.connHandle = true) (hshutdown : conn.recvShutdown = false)
    (hclear : conn.readyToRecv = false) (hquiet : ¬s.Pending c)
    (h : Net.step multiple s (.receive b c n timeOutFlag fails now) = some s') :
    s'.Stranded b c := by
  obtain ⟨loop, hloop, rfl⟩ := Option.map_eq_some_iff.mp h
  rw [Tinyasync.step] at hloop
  split at hloop
  · cases hloop
  · rename_i hnew
    have hcondition : ¬(conn.connHandle = false ∨ conn.recvShutdown = true) := by
      rw [hopen, hshutdown]
      decide
    obtain ⟨htasks, hcontrol⟩ := receive_spec hloop
    have htries : ¬(s.loop.conns c).any ConnImpl.tries = true := by
      rw [hconn, Option.any_some, ConnImpl.tries, hclear, Bool.and_false]
      decide
    refine ⟨?_, ?_, ?_, ?_⟩
    · have hw : (AsyncReceiveAwaiter.new c n timeOutFlag).conn = c := rfl
      simp only [receive, hw, hconn, if_neg hcondition, hclear, if_neg Bool.false_ne_true] at hloop
      cases hloop
      exact ⟨_, update_self .., rfl, rfl⟩
    · rw [if_neg htries]
      exact hquiet
    · show PostTask.close c ∉ loop.taskQueue
      rw [htasks]
      intro hclose
      obtain ⟨con, hcon, hhandle⟩ := hsettled.closed c hclose
      cases hconn.symm.trans hcon
      rw [hopen] at hhandle
      cases hhandle
    · show b ∉ loop.control.resumes
      rw [hcontrol]
      intro hb
      have hsome := hsettled.named b hb
      rw [hnew] at hsome
      cases hsome

/-- **The end of the stream is lost**, and nothing else is: a read that begins on an open connection
with the flag clear and with no event to come finds no byte in the socket, and its awaiter is
suspended, whether the peer has finished or not, until an event comes to the connection, it is
closed, or the awaiter's time is over. -/
theorem end_lost {s₁ : Net} {conn : ConnImpl} {n now : ℕ} {timeOutFlag fails : Bool}
    {es : List Event} (h : (net multiple).Reachable OneReader s)
    (hconn : s.loop.conns c = some conn) (hopen : conn.connHandle = true)
    (hshutdown : conn.recvShutdown = false) (hclear : conn.readyToRecv = false)
    (halone : conn.recvAwaiter = []) (hquiet : ¬s.Pending c)
    (hstep : (net multiple).step s (.receive b c n timeOutFlag fails now) = some s₁)
    (hmeets : (net multiple).Meets (Undisturbed b c) s₁ es)
    (hrun : (net multiple).run s₁ es = some s') :
    (s.sock c).avail = 0 ∧ s'.loop.Sleeps b c := by
  have hwoken := woken_of_reachable h
  have hone : OneReader s (.receive b c n timeOutFlag fails now) := by
    intro con hcon
    cases hconn.symm.trans hcon
    exact halone
  constructor
  · by_contra havail
    exact hquiet (hwoken.ready c conn hconn hopen hclear (.inl (Nat.pos_of_ne_zero havail)))
  · have hstranded := stranded_of_receive (settled_of_reachable h) hconn hopen hshutdown hclear
      hquiet hstep
    have hend := System.run_invariant (P := fun s => Woken s ∧ s.Stranded b c)
      (fun s e s' hs hok hstep => ⟨hs.1.step hok.1 hstep, hs.2.step hs.1 hok hstep⟩) es
      ⟨hwoken.step hone hstep, hstranded⟩ hmeets hrun
    exact hend.2.sleeps

end

/-- Three bytes and the end come in together, and the callback reads the bytes. -/
def passedRun : List Event :=
  [.connect 0, .receive 0 0 4 false false 5, .arrive 0 3, .finish 0, .run (.clock 6), .run .expire,
    .poll [0], .readable, .recv false, .run .done]

/-- The loop turns on, and no event comes. -/
def idleTurn : List Event := [.run .done, .run (.clock 8), .run .expire, .poll [], .run .done]

theorem passedRun_one : (net false).Meets OneReader (net false).start passedRun := by
  refine ⟨trivial, fun s hs => ⟨fun conn hconn => ?_, fun _ _ => ?_⟩⟩
  · cases hs
    cases hconn
    rfl
  · exact System.meets_of_forall (by simp [OneReader]) _

theorem passedRun_end : ∃ s s₁ s', (net false).run (net false).start passedRun = some s ∧
    (s.sock 0).finished = true ∧ s.loop.conns 0 = some ⟨true, false, false, []⟩ ∧ ¬s.Pending 0 ∧
    (net false).step s (.receive 1 0 4 false false 7) = some s₁ ∧
    (net false).Meets (Undisturbed 1 0) s₁ idleTurn ∧ (net false).run s₁ idleTurn = some s' := by
  refine ⟨_, _, _, rfl, rfl, rfl, ?_, rfl, ?_, rfl⟩
  · intro h
    obtain h | h := h
    · cases h
    · cases h
  · exact System.meets_of_forall (by simp [idleTurn, Undisturbed, OneReader]) _

theorem end_lost_passedRun : ∃ s s₁ s', (net false).run (net false).start passedRun = some s ∧
    (s.sock 0).finished = true ∧
    (net false).step s (.receive 1 0 4 false false 7) = some s₁ ∧
    (net false).run s₁ idleTurn = some s' ∧ s'.loop.Sleeps 1 0 := by
  obtain ⟨s, s₁, s', hs, hfinished, hconn, hquiet, hstep, hmeets, hrun⟩ := passedRun_end
  refine ⟨s, s₁, s', hs, hfinished, hstep, hrun, ?_⟩
  exact (end_lost (System.Reachable.start.run passedRun passedRun_one hs) hconn rfl rfl rfl rfl
    hquiet hstep hmeets hrun).2

end Rojcpp.Tinyasync
