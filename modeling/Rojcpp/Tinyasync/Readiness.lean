import Rojcpp.Tinyasync.TimeQueue

/-!
# Edge-triggered events and the suspended readers

A connection is registered with `EPOLLET`: `epoll_wait` reports an event once, and not again while
its bytes stay unread.  A reader that is suspended beside unread bytes, with the event already
taken, would sleep on.  `m_ready_to_recv` is kept against that: it is cleared only where a receive
has emptied the socket, and a new reader that finds it set receives before it is suspended.

The event loop is put together with its sockets and with the events of one `epoll_wait`.  What a
receive returns then comes from the socket.  A connection has one reader at a time, as the
coroutine of a session is the only one that reads its connection.

The end of the stream is not as safe as the bytes are: it comes with the same event as the last
bytes when the peer has finished by then, and the callback's short read leaves it and clears the
flag.  `Sock.passed` marks such a socket.
-/

namespace Rojcpp.Tinyasync

open Rojcpp.Lib Function

/-! ### Sockets -/

/-- A socket on the side that is read: its bytes, whether the peer has finished, whether a short
read of the callback has left that end unread, and whether it has an event to report. -/
structure Sock where
  avail : ℕ
  finished : Bool
  passed : Bool
  edge : Bool
  deriving DecidableEq, Repr

/-- What `::recv` returns, unless it fails. -/
def Sock.recv (k : Sock) (size : ℕ) : Recv :=
  if 0 < k.avail then .bytes (min size k.avail)
  else if k.finished = true then .bytes 0
  else .again

/-- `epoll_wait` sets `EPOLLIN` in the socket's event. -/
def Sock.readable (k : Sock) : Bool := decide (0 < k.avail) || k.finished

/-- What a receive leaves. -/
def Sock.take (k : Sock) : Recv → Sock
  | .bytes n => { k with avail := k.avail - n }
  | _ => k

/-- What a receive of the callback leaves. -/
def Sock.drain (k : Sock) (size : ℕ) : Recv → Sock
  | .bytes n =>
    { k.take (.bytes n) with passed := if n < size then k.passed || k.finished else k.passed }
  | _ => k

/-- There is something for a reader: bytes, or the end of the stream. -/
def Sock.Unread (k : Sock) : Prop := 0 < k.avail ∨ (k.finished = true ∧ k.passed = false)

/-! ### The loop among its sockets -/

/-- The loop, the sockets by their connections, and the connections whose events `epoll_wait` has
returned with `EPOLLIN` and the loop has not come to. -/
structure Net where
  loop : IoCtx
  sock : ℕ → Sock
  batch : List ℕ

/-- The steps: the loop's own; bytes or the end that come in from a peer; and any other event of a
socket, as when it can be written again.  A receive may fail. -/
inductive Event where
  | connect (conn : ℕ)
  | receive (awaiter conn n : ℕ) (timeOutFlag fails : Bool) (now : ℕ)
  | arrive (conn n : ℕ)
  | finish (conn : ℕ)
  | stir (conn : ℕ)
  | poll (conns : List ℕ)
  | readable
  | recv (fails : Bool)
  | run (act : Action)
  deriving DecidableEq, Repr

/-- `::recv` on a connection. -/
def Net.recv (s : Net) (c size : ℕ) (fails : Bool) : Recv :=
  if fails = true then .error else (s.sock c).recv size

/-- `await_suspend` receives before it suspends. -/
def ConnImpl.tries (conn : ConnImpl) : Bool :=
  conn.connHandle && !conn.recvShutdown && conn.readyToRecv

/-- The steps of the loop that ask nothing of the sockets: `epoll_wait` comes when there is no task,
and the loop ends when its events are done. -/
def Net.allows (s : Net) : Action → Bool
  | .shutdownRecv _ => true
  | .close _ => true
  | .post => true
  | .clock _ => true
  | .expire => true
  | .wake => true
  | .pop => !s.loop.taskQueue.isEmpty
  | .done => s.loop.control ≠ .events || s.batch.isEmpty
  | _ => false

/-- One step. -/
def Net.step (multiple : Bool) (s : Net) : Event → Option Net
  -- a new connection can be written to, which `EPOLL_CTL_ADD` reports
  | .connect c =>
    (Tinyasync.step multiple s.loop (.connect c)).map fun loop =>
      { s with loop := loop, sock := update s.sock c { s.sock c with edge := true } }
  | .receive a c n timeOutFlag fails now =>
    let r := s.recv c n fails
    (Tinyasync.step multiple s.loop (.receive a c n timeOutFlag r now)).map fun loop =>
      { s with
        loop := loop
        sock :=
          if (s.loop.conns c).any ConnImpl.tries then update s.sock c ((s.sock c).take r)
          else s.sock }
  | .arrive c n =>
    some { s with
      sock := update s.sock c { s.sock c with avail := (s.sock c).avail + n, edge := true } }
  | .finish c =>
    some { s with sock := update s.sock c { s.sock c with finished := true, edge := true } }
  | .stir c => some { s with sock := update s.sock c { s.sock c with edge := true } }
  | .poll cs =>
    if s.loop.taskQueue = [] ∧ cs.Nodup ∧
        ∀ c ∈ cs, (s.sock c).edge = true ∧ (s.loop.conns c).isSome = true then
      (Tinyasync.step multiple s.loop .pop).map fun loop =>
        { loop := loop
          sock := fun c => if c ∈ cs then { s.sock c with edge := false } else s.sock c
          batch := cs.filter fun c => (s.sock c).readable }
    else none
  | .readable =>
    match s.batch with
    | [] => none
    | c :: batch =>
      (Tinyasync.step multiple s.loop (.readable c)).map fun loop =>
        { s with loop := loop, batch := batch }
  | .recv fails =>
    match s.loop.control with
    | .reading c (a :: _) =>
      match s.loop.awaiters a with
      | none => none
      | some w =>
        let r := s.recv c w.bufferSize fails
        (Tinyasync.step multiple s.loop (.recv r)).map fun loop =>
          { s with
            loop := loop, sock := update s.sock c ((s.sock c).drain w.bufferSize r) }
    | _ => none
  | .run act =>
    if s.allows act = true then
      (Tinyasync.step multiple s.loop act).map fun loop => { s with loop := loop }
    else none

/-- The loop and sockets that nothing has come to. -/
def net (multiple : Bool) : System Net Event :=
  ⟨⟨(eventLoop multiple).start, fun _ => ⟨0, false, false, false⟩, []⟩, Net.step multiple⟩

/-- A read begins where the connection has no reader. -/
def OneReader (s : Net) : Event → Prop
  | .receive _ c _ _ _ _ => ∀ conn ∈ s.loop.conns c, conn.recvAwaiter = []
  | _ => True

/-- The loop will come to the connection with an event. -/
def Net.Pending (s : Net) (c : ℕ) : Prop := (s.sock c).edge = true ∨ c ∈ s.batch

/-- The connection has its handle. -/
def IoCtx.Open (s : IoCtx) (c : ℕ) : Prop := ∃ conn ∈ s.conns c, conn.connHandle = true

/-- The awaiter is suspended on the connection. -/
def IoCtx.Sleeps (s : IoCtx) (a c : ℕ) : Prop :=
  ∃ w ∈ s.awaiters a, w.suspended = true ∧ w.conn = c

/-! ### The lists of readers -/

/-- A suspended awaiter goes on and leaves the list of its connection. -/
structure Freed (s s' : IoCtx) (a : ℕ) (w : AsyncReceiveAwaiter) : Prop where
  before : s.awaiters a = some w
  suspended : w.suspended = true
  awaiters : ∃ w' : AsyncReceiveAwaiter, w'.suspended = false ∧ w'.conn = w.conn ∧
    s'.awaiters = update s.awaiters a (some w')
  conns : ∃ conn l, s.conns w.conn = some conn ∧
    s'.conns = update s.conns w.conn (some { conn with recvAwaiter := l }) ∧
    l ⊆ conn.recvAwaiter ∧ (conn.recvAwaiter = [a] → l = [])

/-- A connection changes, but not its readers, and no handle comes back. -/
structure Marked (s s' : IoCtx) (c : ℕ) (conn conn' : ConnImpl) : Prop where
  before : s.conns c = some conn
  after : s'.conns = update s.conns c (some conn')
  readers : conn'.recvAwaiter = conn.recvAwaiter
  handle : conn'.connHandle = true → conn.connHandle = true
  awaiters : s'.awaiters = s.awaiters

/-- The lists and the awaiters belong together: a list holds awaiters of its connection, and who is
suspended on an open connection is its only reader. -/
structure Readers (s : IoCtx) : Prop where
  belongs : ∀ c, ∀ conn ∈ s.conns c, ∀ a ∈ conn.recvAwaiter, ∃ w ∈ s.awaiters a, w.conn = c
  sleeps : ∀ a, ∀ w ∈ s.awaiters a, w.suspended = true → w.suspendReturn = true ∧
    ∃ conn ∈ s.conns w.conn, conn.connHandle = true → conn.recvAwaiter = [a]

section
variable {s s' : IoCtx} {a c : ℕ} {w : AsyncReceiveAwaiter} {conn conn' : ConnImpl}

theorem Readers.congr (h : Readers s) (hconns : s'.conns = s.conns)
    (hawaiters : s'.awaiters = s.awaiters) : Readers s' where
  belongs := by
    rw [hconns, hawaiters]
    exact h.belongs
  sleeps := by
    rw [hconns, hawaiters]
    exact h.sleeps

theorem Readers.marked (h : Readers s) (hm : Marked s s' c conn conn') : Readers s' where
  belongs := by
    rw [hm.after, hm.awaiters]
    intro d con hcon b hb
    by_cases hd : d = c
    · subst hd
      rw [update_self] at hcon
      cases hcon
      exact h.belongs d conn hm.before b (hm.readers ▸ hb)
    · rw [update_of_ne hd] at hcon
      exact h.belongs d con hcon b hb
  sleeps := by
    rw [hm.after, hm.awaiters]
    intro b v hv hsuspended
    obtain ⟨hreturn, con, hcon, honly⟩ := h.sleeps b v hv hsuspended
    refine ⟨hreturn, ?_⟩
    by_cases hd : v.conn = c
    · rw [hd, update_self]
      rw [hd, hm.before] at hcon
      cases hcon
      exact ⟨conn', rfl, fun hopen => hm.readers.trans (honly (hm.handle hopen))⟩
    · rw [update_of_ne hd]
      exact ⟨con, hcon, honly⟩

/-- A new connection has no readers. -/
theorem Readers.connects (h : Readers s) (hnew : s.conns c = none)
    (hconns : s'.conns = update s.conns c (some ConnImpl.new))
    (hawaiters : s'.awaiters = s.awaiters) : Readers s' where
  belongs := by
    rw [hconns, hawaiters]
    intro d con hcon b hb
    by_cases hd : d = c
    · subst hd
      rw [update_self] at hcon
      cases hcon
      exact absurd hb List.not_mem_nil
    · rw [update_of_ne hd] at hcon
      exact h.belongs d con hcon b hb
  sleeps := by
    rw [hconns, hawaiters]
    intro b v hv hsuspended
    obtain ⟨hreturn, con, hcon, honly⟩ := h.sleeps b v hv hsuspended
    have hd : v.conn ≠ c := by
      intro hd
      rw [hd, hnew] at hcon
      cases hcon
    rw [update_of_ne hd]
    exact ⟨hreturn, con, hcon, honly⟩

/-- A new awaiter whose `co_await` ends at once. -/
theorem Readers.passes (h : Readers s) (hnew : s.awaiters a = none)
    (hsuspended : w.suspended = false) (hconns : s'.conns = s.conns)
    (hawaiters : s'.awaiters = update s.awaiters a (some w)) : Readers s' where
  belongs := by
    rw [hconns, hawaiters]
    intro d con hcon b hb
    obtain ⟨v, hv, hconn⟩ := h.belongs d con hcon b hb
    have hba : b ≠ a := by
      intro hba
      rw [hba, hnew] at hv
      cases hv
    rw [update_of_ne hba]
    exact ⟨v, hv, hconn⟩
  sleeps := by
    rw [hconns, hawaiters]
    intro b v hv hs
    by_cases hba : b = a
    · subst hba
      rw [update_self] at hv
      cases hv
      exact absurd hs (by simp [hsuspended])
    · rw [update_of_ne hba] at hv
      exact h.sleeps b v hv hs

/-- A new awaiter that is suspended where nobody is. -/
theorem Readers.suspends (h : Readers s) (hnew : s.awaiters a = none)
    (hreturn : w.suspendReturn = true) (hbefore : s.conns w.conn = some conn)
    (halone : conn.recvAwaiter = []) (hhandle : conn.connHandle = true)
    (hlist : conn'.recvAwaiter = [a]) (hconns : s'.conns = update s.conns w.conn (some conn'))
    (hawaiters : s'.awaiters = update s.awaiters a (some w)) : Readers s' where
  belongs := by
    rw [hconns, hawaiters]
    intro d con hcon b hb
    by_cases hd : d = w.conn
    · subst hd
      rw [update_self] at hcon
      cases hcon
      rw [hlist, List.mem_singleton] at hb
      subst hb
      exact ⟨w, update_self .., rfl⟩
    · rw [update_of_ne hd] at hcon
      obtain ⟨v, hv, hconn⟩ := h.belongs d con hcon b hb
      have hba : b ≠ a := by
        intro hba
        rw [hba, hnew] at hv
        cases hv
      rw [update_of_ne hba]
      exact ⟨v, hv, hconn⟩
  sleeps := by
    rw [hconns, hawaiters]
    intro b v hv hs
    by_cases hba : b = a
    · subst hba
      rw [update_self] at hv
      cases hv
      exact ⟨hreturn, conn', update_self .., fun _ => hlist⟩
    · rw [update_of_ne hba] at hv
      obtain ⟨hret, con, hcon, honly⟩ := h.sleeps b v hv hs
      have hd : v.conn ≠ w.conn := by
        intro hd
        rw [hd, hbefore] at hcon
        cases hcon
        rw [halone] at honly
        cases honly hhandle
      rw [update_of_ne hd]
      exact ⟨hret, con, hcon, honly⟩

theorem Readers.freed (h : Readers s) (hf : Freed s s' a w) : Readers s' := by
  obtain ⟨w', hawake, hconn, hawaiters⟩ := hf.awaiters
  obtain ⟨conn, l, hbefore, hconns, hsub, hempty⟩ := hf.conns
  constructor
  · rw [hconns, hawaiters]
    -- the awaiter keeps its connection
    have hkeeps : ∀ b d, (∃ v ∈ s.awaiters b, v.conn = d) →
        ∃ v ∈ update s.awaiters a (some w') b, v.conn = d := by
      intro b d hv
      obtain ⟨v, hv, hd⟩ := hv
      by_cases hba : b = a
      · subst hba
        cases hf.before.symm.trans hv
        exact ⟨w', update_self .., hconn.trans hd⟩
      · rw [update_of_ne hba]
        exact ⟨v, hv, hd⟩
    intro d con hcon b hb
    by_cases hd : d = w.conn
    · subst hd
      rw [update_self] at hcon
      cases hcon
      exact hkeeps b _ (h.belongs _ conn hbefore b (hsub hb))
    · rw [update_of_ne hd] at hcon
      exact hkeeps b d (h.belongs d con hcon b hb)
  · rw [hconns, hawaiters]
    intro b v hv hs
    by_cases hba : b = a
    · subst hba
      rw [update_self] at hv
      cases hv
      exact absurd hs (by simp [hawake])
    · rw [update_of_ne hba] at hv
      obtain ⟨hret, con, hcon, honly⟩ := h.sleeps b v hv hs
      refine ⟨hret, ?_⟩
      by_cases hd : v.conn = w.conn
      · rw [hd, update_self]
        rw [hd, hbefore] at hcon
        cases hcon
        refine ⟨_, rfl, fun hopen => ?_⟩
        -- an open connection has one reader, which would be both
        obtain ⟨_, con, hcon, hother⟩ := h.sleeps a w hf.before hf.suspended
        cases hbefore.symm.trans hcon
        cases (honly hopen).symm.trans (hother hopen)
        exact absurd rfl hba
      · rw [update_of_ne hd]
        exact ⟨con, hcon, honly⟩

end

/-! ### What a step does to the readers -/

/-- The callback has an awaiter to resume, or is about to clear the flag. -/
def Control.busy : Control → Bool
  | .reading _ (_ :: _) => true
  | .leaving _ => true
  | _ => false

/-- **What a step can do**: a new connection; a new awaiter that ends at once, or is suspended; the
callback's beginning, its receives and its end; a connection that is shut down or closed; an awaiter
that goes on outside the callbacks; and the turns of the loop. -/
inductive Move (s s' : IoCtx) : Action → Prop
  | connects {c : ℕ} (hnew : s.conns c = none)
      (hconns : s'.conns = update s.conns c (some ConnImpl.new))
      (hawaiters : s'.awaiters = s.awaiters) (hcontrol : s'.control = s.control) :
      Move s s' (.connect c)
  | passes {a c n now : ℕ} {timeOutFlag : Bool} {r : Recv} (w : AsyncReceiveAwaiter)
      (hnew : s.awaiters a = none) (hsuspended : w.suspended = false)
      (hconns : s'.conns = s.conns) (hawaiters : s'.awaiters = update s.awaiters a (some w))
      (hcontrol : s'.control = s.control) : Move s s' (.receive a c n timeOutFlag r now)
  | suspends {a c n now : ℕ} {timeOutFlag : Bool} {r : Recv} (w : AsyncReceiveAwaiter)
      (conn : ConnImpl) (hnew : s.awaiters a = none) (hreturn : w.suspendReturn = true)
      (hconn : w.conn = c) (hbefore : s.conns c = some conn) (hhandle : conn.connHandle = true)
      (htried : conn.tries = true → r = .again)
      (hnot : conn.tries = false → conn.readyToRecv = false)
      (hconns : s'.conns = update s.conns c
        (some { conn with readyToRecv := false, recvAwaiter := a :: conn.recvAwaiter }))
      (hawaiters : s'.awaiters = update s.awaiters a (some w))
      (hcontrol : s'.control = s.control) : Move s s' (.receive a c n timeOutFlag r now)
  | begins {c : ℕ} (conn : ConnImpl)
      (hmarked : Marked s s' c conn { conn with readyToRecv := true })
      (hbefore : s.control = .events) (hcontrol : s'.control = .reading c conn.recvAwaiter) :
      Move s s' (.readable c)
  | dries {c a : ℕ} {rest : List ℕ} (conn : ConnImpl)
      (hmarked : Marked s s' c conn { conn with readyToRecv := false })
      (hbefore : s.control = .reading c (a :: rest)) (hcontrol : s'.control = .events) :
      Move s s' (.recv .again)
  | receives {c a : ℕ} {rest : List ℕ} {r : Recv} (w : AsyncReceiveAwaiter)
      (hfreed : Freed s s' a w)
      (hbefore : s.control = .reading c (a :: rest))
      (hcontrol : s'.control = .reading c rest ∨
        s'.control = .leaving c ∧ ∃ n, r = .bytes n ∧ n < w.bufferSize) : Move s s' (.recv r)
  | leaves {c : ℕ} (conn : ConnImpl)
      (hmarked : Marked s s' c conn { conn with readyToRecv := false })
      (hbefore : s.control = .leaving c) (hcontrol : s'.control = .events) : Move s s' .done
  | marks {act : Action} {c : ℕ} (conn conn' : ConnImpl) (hmarked : Marked s s' c conn conn')
      (hready : conn'.readyToRecv = conn.readyToRecv) (hcontrol : s'.control = s.control) :
      Move s s' act
  | frees {act : Action} (a : ℕ) (w : AsyncReceiveAwaiter) (hfreed : Freed s s' a w)
      (hbefore : s.control.polled = false) (hcontrol : s'.control.polled = false) : Move s s' act
  | turns {act : Action} (hconns : s'.conns = s.conns) (hawaiters : s'.awaiters = s.awaiters)
      (hcontrol : s'.control = s.control ∨ s.control.busy = false ∧ s'.control.busy = false)
      (hpolled : s'.control.polled = false → s.control.polled = false ∨
        act = .done ∧ s.control = .events) : Move s s' act

/-- `await_resume` leaves the awaiter awake, on its connection. -/
theorem awaitResume_awake {s s' : IoCtx} {a : ℕ} {w : AsyncReceiveAwaiter}
    (h : awaitResume s a w = some s') :
    ∃ w' : AsyncReceiveAwaiter, w'.suspended = false ∧ w'.conn = w.conn ∧
      s'.awaiters = update s.awaiters a (some w') := by
  obtain ⟨⟨o, hawaiters⟩, -, -, -⟩ := awaitResume_spec h
  exact ⟨{ w with suspended := false, result := some o }, rfl, rfl, hawaiters⟩

/-- `await_resume` of an awaiter that was suspended, after a receive: the front of the list goes,
which is the awaiter's own place where it is alone. -/
theorem awaitResume_freed {s s' : IoCtx} {a : ℕ} {w : AsyncReceiveAwaiter} {b : ℤ}
    (hw : s.awaiters a = some w) (hsuspended : w.suspended = true)
    (hreturn : w.suspendReturn = true) (hb : -1 ≤ b)
    (h : awaitResume s a { w with bytesTransfer := b } = some s') :
    Freed s s' a w ∧ (0 ≤ b → ∃ w' ∈ s'.awaiters a, w'.result = some (.returned b)) := by
  have hclosed : ¬b = kClosedSocketReady := by
    rw [kClosedSocketReady]
    omega
  have htime : ¬b = kTimeOut := by
    rw [kTimeOut]
    omega
  have hawake := awaitResume_awake h
  rw [awaitResume, if_neg hclosed, if_neg htime, popRecvAwaiter, if_pos hreturn] at h
  cases hconn : s.conns w.conn with
  | none => simp [hconn] at h
  | some conn =>
    cases hlist : conn.recvAwaiter with
    | nil => simp [hconn, hlist] at h
    | cons x rest =>
      have hconns : ∃ con l, s.conns w.conn = some con ∧
          update s.conns w.conn (some { conn with recvAwaiter := rest }) =
            update s.conns w.conn (some { con with recvAwaiter := l }) ∧
          l ⊆ con.recvAwaiter ∧ (con.recvAwaiter = [a] → l = []) := by
        refine ⟨conn, rest, hconn, rfl, ?_, ?_⟩
        · rw [hlist]
          exact List.subset_cons_self x rest
        · rw [hlist]
          exact fun h => (List.cons.inj h).2
      simp only [hconn, hlist] at h
      split at h
      · rename_i hneg
        cases h
        exact ⟨⟨hw, hsuspended, hawake, hconns⟩, fun h => absurd hneg (Int.not_lt.mpr h)⟩
      · split at h
        · cases h
          exact ⟨⟨hw, hsuspended, hawake, hconns⟩, fun _ => ⟨_, update_self .., rfl⟩⟩
        · cases h
          exact ⟨⟨hw, hsuspended, hawake, hconns⟩, fun _ => ⟨_, update_self .., rfl⟩⟩

/-- The same of `resume`, from a control that the resumption leaves as it is. -/
theorem resume_freed {s s' : IoCtx} {control : Control} {a : ℕ} {b : ℤ} (hs : Readers s)
    (hb : -1 ≤ b) (h : resume { s with control := control } a b = some s') :
    ∃ w, Freed s s' a w ∧ s'.control = control ∧
      (0 ≤ b → ∃ w' ∈ s'.awaiters a, w'.result = some (.returned b)) := by
  rw [resume] at h
  cases hw : s.awaiters a with
  | none => simp [hw] at h
  | some w =>
    simp only [hw, Option.ite_none_right_eq_some] at h
    obtain ⟨hsuspended, h⟩ := h
    obtain ⟨hfreed, hresult⟩ := awaitResume_freed (s := { s with control := control }) hw hsuspended
      (hs.sleeps a w hw hsuspended).1 hb h
    obtain ⟨-, -, -, hcontrol⟩ := awaitResume_spec h
    exact ⟨w, ⟨hw, hsuspended, hfreed.awaiters, hfreed.conns⟩, hcontrol, hresult⟩

/-- `on_timeout_outcallbak` takes the awaiter out of the list, wherever it stands. -/
theorem onTimeout_freed {s s' : IoCtx} {a : ℕ} {tasks : List PostTask}
    (h : onTimeout { s with taskQueue := tasks, control := .top } a = some s') :
    ∃ w, Freed s s' a w ∧ s'.control = .top := by
  rw [onTimeout] at h
  cases hw : s.awaiters a with
  | none => simp [hw] at h
  | some w =>
    cases hconn : s.conns w.conn with
    | none => simp [hw, hconn] at h
    | some conn =>
      simp only [hw, hconn, resume, Option.ite_none_right_eq_some] at h
      obtain ⟨hsuspended, h⟩ := h
      have hawake := awaitResume_awake h
      have hclosed : kTimeOut ≠ kClosedSocketReady := by decide
      rw [awaitResume, if_neg hclosed, if_pos rfl] at h
      cases h
      refine ⟨w, ⟨hw, hsuspended, hawake, conn, _, hconn, rfl, ?_, ?_⟩, rfl⟩
      · exact List.erase_subset
      · intro hlist
        rw [hlist]
        exact List.erase_cons_head a []

/-- `co_await` of a read that ends at once leaves the connections as they are. -/
theorem move_passes {s s' : IoCtx} {a c n now : ℕ} {timeOutFlag : Bool} {r : Recv}
    {w : AsyncReceiveAwaiter} (hnew : s.awaiters a = none) (hreturn : w.suspendReturn = false)
    (h : awaitResume { s with timeQueue := s.timeQueue.init (some a) } a w = some s') :
    Move s s' (.receive a c n timeOutFlag r now) := by
  obtain ⟨w', hawake, -, hawaiters⟩ := awaitResume_awake h
  obtain ⟨-, -, -, hcontrol⟩ := awaitResume_spec h
  refine .passes w' hnew hawake ?_ hawaiters hcontrol
  have hkeeps : ∀ t : IoCtx, popRecvAwaiter t w = some t := by
    intro t
    rw [popRecvAwaiter, hreturn]
    rfl
  rw [awaitResume, hkeeps] at h
  split at h
  · cases h
    rfl
  split at h
  · cases h
    rfl
  dsimp only at h
  split at h
  · cases h
    rfl
  split at h
  · cases h
    rfl
  · cases h
    rfl

theorem move_suspends {s : IoCtx} {a c n now : ℕ} {timeOutFlag : Bool} {r : Recv}
    {conn : ConnImpl} (hnew : s.awaiters a = none) (hbefore : s.conns c = some conn)
    (hhandle : conn.connHandle = true) (htried : conn.tries = true → r = .again)
    (hnot : conn.tries = false → conn.readyToRecv = false) :
    Move s (suspend { s with timeQueue := s.timeQueue.init (some a) } a
      (AsyncReceiveAwaiter.new c n timeOutFlag) { conn with readyToRecv := false } now)
      (.receive a c n timeOutFlag r now) := by
  refine .suspends
    { AsyncReceiveAwaiter.new c n timeOutFlag with
      expire := if timeOutFlag = true then now + 10 * 1000 * 1000000 else 0
      suspendReturn := true
      suspended := true }
    conn hnew rfl rfl hbefore hhandle htried hnot ?_ ?_ ?_
  all_goals
    rw [suspend]
    cases timeOutFlag <;> rfl

theorem move_receive {s s' : IoCtx} {a c n now : ℕ} {timeOutFlag : Bool} {r : Recv}
    (hnew : s.awaiters a = none)
    (h : receive s a (AsyncReceiveAwaiter.new c n timeOutFlag) r now = some s') :
    Move s s' (.receive a c n timeOutFlag r now) := by
  rw [receive] at h
  split at h
  · cases h
  · rename_i conn hbefore
    split at h
    · exact move_passes hnew rfl h
    · rename_i hopen
      rw [not_or, Bool.not_eq_false, Bool.not_eq_true] at hopen
      have htries : conn.tries = conn.readyToRecv := by
        simp [ConnImpl.tries, hopen.1, hopen.2]
      split at h
      · rename_i hready
        cases r with
        | bytes m => exact move_passes hnew rfl h
        | again =>
          cases h
          refine move_suspends hnew hbefore hopen.1 (fun _ => rfl) fun hnot => ?_
          rw [htries, hready] at hnot
          cases hnot
        | error =>
          cases h
          exact .passes _ hnew rfl rfl rfl rfl
      · rename_i hready
        rw [Bool.not_eq_true] at hready
        cases h
        have hsame : conn = { conn with readyToRecv := false } := by
          rw [← hready]
        rw [hsame]
        refine move_suspends hnew hbefore hopen.1 (fun htried => ?_) fun _ => hready
        rw [htries, hready] at htried
        cases htried

/-- The turns of the loop that change its control only. -/
theorem move_expire {multiple : Bool} {s s' : IoCtx}
    (h : step multiple s .expire = some s') : Move s s' .expire := by
  rw [step] at h
  split at h
  · rename_i now hcontrol
    have hbefore : s.control.polled = false := by
      rw [hcontrol]
      rfl
    have hidle : s.control.busy = false := by
      rw [hcontrol]
      rfl
    split at h
    · cases h
      exact .turns rfl rfl (.inr ⟨hidle, rfl⟩) fun _ => .inl hbefore
    · split at h
      · cases h
      · split at h
        · split at h
          · cases h
          · cases h
            exact .turns rfl rfl (.inl rfl) fun _ => .inl hbefore
        · cases h
          exact .turns rfl rfl (.inr ⟨hidle, rfl⟩) fun _ => .inl hbefore
  · cases h

theorem move_pop {multiple : Bool} {s s' : IoCtx} (h : step multiple s .pop = some s') :
    Move s s' .pop := by
  rw [step] at h
  split at h
  · rename_i hcontrol
    have hbefore : s.control.polled = false := by
      rw [hcontrol]
      rfl
    have hidle : s.control.busy = false := by
      rw [hcontrol]
      rfl
    split at h
    · cases h
      exact .turns rfl rfl (.inr ⟨hidle, rfl⟩) fun h => by cases h
    · cases h
      exact .turns rfl rfl (.inr ⟨hidle, rfl⟩) fun _ => .inl hbefore
    · obtain ⟨w, hfreed, htop⟩ := onTimeout_freed h
      refine .frees _ w hfreed hbefore ?_
      rw [htop]
      rfl
    · split at h
      · cases h
      · cases h
        exact .turns rfl rfl (.inr ⟨hidle, rfl⟩) fun _ => .inl hbefore
  · cases h

theorem move_recv {multiple : Bool} {s s' : IoCtx} {r : Recv} (hs : Readers s)
    (h : step multiple s (.recv r) = some s') : Move s s' (.recv r) := by
  rw [step] at h
  split at h
  · rename_i c a rest hcontrol
    split at h
    · rename_i conn hconn
      cases h
      exact .dries conn ⟨hconn, rfl, rfl, id, rfl⟩ hcontrol rfl
    · rename_i n w hw
      obtain ⟨v, hfreed, hafter, -⟩ := resume_freed hs (by omega) h
      refine .receives v hfreed hcontrol ?_
      cases hw.symm.trans hfreed.before
      rw [hafter]
      by_cases hshort : n < w.bufferSize
      · rw [if_pos hshort]
        exact .inr ⟨rfl, n, rfl, hshort⟩
      · rw [if_neg hshort]
        exact .inl rfl
    · obtain ⟨v, hfreed, hafter, -⟩ := resume_freed hs (Int.le_refl _) h
      exact .receives v hfreed hcontrol (.inl hafter)
    · cases h
  · cases h

theorem move_done {multiple : Bool} {s s' : IoCtx} (h : step multiple s .done = some s') :
    Move s s' .done := by
  rw [step] at h
  split at h
  · rename_i hcontrol
    cases h
    refine .turns rfl rfl (.inr ⟨?_, rfl⟩) fun _ => .inr ⟨rfl, hcontrol⟩
    rw [hcontrol]
    rfl
  · rename_i hcontrol
    cases h
    refine .turns rfl rfl (.inr ⟨?_, rfl⟩) fun _ => .inl ?_
    all_goals
      rw [hcontrol]
      rfl
  · rename_i hcontrol
    cases h
    refine .turns rfl rfl (.inr ⟨?_, rfl⟩) fun h => by cases h
    rw [hcontrol]
    rfl
  · rename_i c hcontrol
    split at h
    · cases h
    · rename_i conn hconn
      cases h
      exact .leaves conn ⟨hconn, rfl, rfl, id, rfl⟩ hcontrol rfl
  · cases h

/-- **Inversion of a step.** -/
theorem move_of_step {multiple : Bool} {s s' : IoCtx} {act : Action} (hs : Readers s)
    (h : step multiple s act = some s') : Move s s' act := by
  cases act with
  | connect c =>
    rw [step] at h
    split at h
    · cases h
    · rename_i hnew
      cases h
      exact .connects hnew rfl rfl rfl
  | receive a c n timeOutFlag r now =>
    rw [step] at h
    split at h
    · cases h
    · rename_i hnew
      exact move_receive hnew h
  | shutdownRecv c =>
    rw [step] at h
    split at h
    · cases h
    · rename_i conn hconn
      cases h
      exact .marks conn { conn with recvShutdown := true } ⟨hconn, rfl, rfl, id, rfl⟩ rfl rfl
  | close c =>
    rw [step] at h
    split at h
    · cases h
    · rename_i conn hconn
      split at h
      · rename_i hopen
        cases h
        exact .marks conn { conn with connHandle := false, recvShutdown := true }
          ⟨hconn, rfl, rfl, fun _ => hopen, rfl⟩ rfl rfl
      · cases h
  | post =>
    cases h
    exact .turns rfl rfl (.inl rfl) .inl
  | clock now =>
    rw [step] at h
    split at h
    · rename_i hcontrol
      cases h
      refine .turns rfl rfl (.inr ⟨?_, rfl⟩) fun _ => .inl ?_
      all_goals
        rw [hcontrol]
        rfl
    · cases h
  | expire => exact move_expire h
  | pop => exact move_pop h
  | wake =>
    rw [step] at h
    split at h
    · rename_i a rest hcontrol
      obtain ⟨w, hfreed, hafter, -⟩ := resume_freed hs (Int.le_refl _) h
      refine .frees a w hfreed ?_ ?_
      · rw [hcontrol]
        rfl
      · rw [hafter]
        rfl
    · cases h
  | readable c =>
    rw [step] at h
    split at h
    · rename_i hcontrol
      split at h
      · cases h
      · rename_i conn hconn
        split at h
        · cases h
          exact .begins conn ⟨hconn, rfl, rfl, id, rfl⟩ hcontrol rfl
        · cases h
          exact .turns rfl rfl (.inl rfl) .inl
    · cases h
  | recv r => exact move_recv hs h
  | done => exact move_done h

/-- The lists and the awaiters belong together after a step, where a new reader is the only one. -/
theorem Readers.move {s s' : IoCtx} {act : Action} (hs : Readers s) (h : Move s s' act)
    (halone : ∀ a c n timeOutFlag r now, act = .receive a c n timeOutFlag r now →
      ∀ conn ∈ s.conns c, conn.recvAwaiter = []) : Readers s' := by
  cases h with
  | connects hnew hconns hawaiters _ => exact hs.connects hnew hconns hawaiters
  | passes w hnew hsuspended hconns hawaiters _ => exact hs.passes hnew hsuspended hconns hawaiters
  | suspends w conn hnew hreturn hconn hbefore hhandle _ _ hconns hawaiters _ =>
    subst hconn
    have hlist := halone _ _ _ _ _ _ rfl conn hbefore
    refine hs.suspends hnew hreturn hbefore hlist hhandle ?_ hconns hawaiters
    rw [hlist]
  | begins conn hmarked _ _ => exact hs.marked hmarked
  | dries conn hmarked _ _ => exact hs.marked hmarked
  | receives w hfreed _ _ => exact hs.freed hfreed
  | leaves conn hmarked _ _ => exact hs.marked hmarked
  | marks conn conn' hmarked _ _ => exact hs.marked hmarked
  | frees a w hfreed _ _ => exact hs.freed hfreed
  | turns hconns hawaiters _ _ => exact hs.congr hconns hawaiters

/-! ### The invariant -/

/-- What is unread is going to be reported. -/
def Net.Calm (s : Net) (c : ℕ) : Prop := (s.sock c).Unread → s.Pending c

/-- **The invariant**: no event is kept from one `epoll_wait` to the next; and unread bytes are
going to be reported where the flag is clear, where it is about to be, and where a reader is
suspended, unless the callback is about to read for it. -/
structure Woken (s : Net) : Prop where
  readers : Readers s.loop
  idle : s.loop.control.polled = false → s.batch = []
  ready : ∀ c, ∀ conn ∈ s.loop.conns c, conn.connHandle = true → conn.readyToRecv = false →
    s.Calm c
  leaving : ∀ c, s.loop.control = .leaving c → s.Calm c
  waiting : ∀ a c, s.loop.Sleeps a c → s.loop.Open c →
    s.Calm c ∨ s.loop.control = .reading c [a]

theorem woken_start (multiple : Bool) : Woken (net multiple).start where
  readers := ⟨fun _ _ h => (by cases h), fun _ _ h => (by cases h)⟩
  idle := fun _ => rfl
  ready := fun _ _ h => by cases h
  leaving := fun _ h => by cases h
  waiting := fun _ _ _ h => by
    obtain ⟨_, h, -⟩ := h
    cases h

section
variable {s s' : IoCtx} {a b c d : ℕ} {w : AsyncReceiveAwaiter} {conn conn' : ConnImpl}

theorem Marked.open (hm : Marked s s' c conn conn') (h : s'.Open d) : s.Open d := by
  obtain ⟨con, hcon, hopen⟩ := h
  by_cases hd : d = c
  · subst hd
    rw [hm.after, update_self] at hcon
    cases hcon
    exact ⟨conn, hm.before, hm.handle hopen⟩
  · rw [hm.after, update_of_ne hd] at hcon
    exact ⟨con, hcon, hopen⟩

theorem Marked.sleeps (hm : Marked s s' c conn conn') (h : s'.Sleeps a d) : s.Sleeps a d := by
  rw [IoCtx.Sleeps, hm.awaiters] at h
  exact h

/-- Who is suspended when one awaiter changes. -/
theorem sleeps_or_of_update (hawaiters : s'.awaiters = update s.awaiters a (some w))
    (h : s'.Sleeps b d) : b = a ∧ w.suspended = true ∧ w.conn = d ∨ b ≠ a ∧ s.Sleeps b d := by
  rw [IoCtx.Sleeps, hawaiters] at h
  obtain ⟨v, hv, hsuspended, hconn⟩ := h
  by_cases hba : b = a
  · rw [hba, update_self] at hv
    cases hv
    exact .inl ⟨hba, hsuspended, hconn⟩
  · rw [update_of_ne hba] at hv
    exact .inr ⟨hba, v, hv, hsuspended, hconn⟩

theorem Freed.sleeps (hf : Freed s s' a w) (h : s'.Sleeps b d) : b ≠ a ∧ s.Sleeps b d := by
  obtain ⟨w', hawake, -, hawaiters⟩ := hf.awaiters
  obtain ⟨-, hsuspended, -⟩ | h := sleeps_or_of_update hawaiters h
  · rw [hawake] at hsuspended
    cases hsuspended
  · exact h

/-- Only the list changes. -/
theorem Freed.flags (hf : Freed s s' a w) (h : conn' ∈ s'.conns d) :
    ∃ conn ∈ s.conns d, conn'.connHandle = conn.connHandle ∧
      conn'.readyToRecv = conn.readyToRecv := by
  obtain ⟨con, l, hbefore, hafter, -⟩ := hf.conns
  rw [hafter] at h
  by_cases hd : d = w.conn
  · rw [hd, update_self] at h
    cases h
    exact ⟨con, hd ▸ hbefore, rfl, rfl⟩
  · rw [update_of_ne hd] at h
    exact ⟨conn', h, rfl, rfl⟩

theorem Freed.open (hf : Freed s s' a w) (h : s'.Open d) : s.Open d := by
  obtain ⟨con, hcon, hopen⟩ := h
  obtain ⟨conn, hconn, hhandle, -⟩ := hf.flags hcon
  exact ⟨conn, hconn, hhandle ▸ hopen⟩

end

section
variable {multiple : Bool} {s s' : Net} {act : Action}

/-- What is calm stays so; what is new in a state has to be looked at. -/
theorem Woken.of (hs : Woken s) (hreaders : Readers s'.loop)
    (hidle : s'.loop.control.polled = false → s'.batch = [])
    (hcalm : ∀ c, s.Calm c → s'.Calm c)
    (hready : ∀ c, ∀ conn ∈ s'.loop.conns c, conn.connHandle = true → conn.readyToRecv = false →
      s'.Calm c ∨ ∃ con ∈ s.loop.conns c, con.connHandle = true ∧ con.readyToRecv = false)
    (hleaving : ∀ c, s'.loop.control = .leaving c → s'.Calm c ∨ s.loop.control = .leaving c)
    (hwaiting : ∀ a c, s'.loop.Sleeps a c → s'.loop.Open c → s'.Calm c ∨
      s.loop.Sleeps a c ∧ s.loop.Open c ∧ (s.loop.control = .reading c [a] →
        s'.Calm c ∨ s'.loop.control = .reading c [a])) : Woken s' where
  readers := hreaders
  idle := hidle
  ready := by
    intro c conn hconn hopen hclear
    obtain h | ⟨con, hcon, hopen, hclear⟩ := hready c conn hconn hopen hclear
    · exact h
    · exact hcalm c (hs.ready c con hcon hopen hclear)
  leaving := by
    intro c hcontrol
    obtain h | h := hleaving c hcontrol
    · exact h
    · exact hcalm c (hs.leaving c h)
  waiting := by
    intro a c hsleeps hopen
    obtain h | ⟨hsleeps, hopen, hcontrol⟩ := hwaiting a c hsleeps hopen
    · exact .inl h
    · exact (hs.waiting a c hsleeps hopen).elim (fun h => .inl (hcalm c h)) hcontrol

/-- The flags when one connection changes. -/
theorem ready_of_update {c : ℕ} {conn' : ConnImpl}
    (hconns : s'.loop.conns = update s.loop.conns c (some conn'))
    (hc : conn'.connHandle = true → conn'.readyToRecv = false → s'.Calm c ∨
      ∃ con ∈ s.loop.conns c, con.connHandle = true ∧ con.readyToRecv = false) :
    ∀ d, ∀ conn ∈ s'.loop.conns d, conn.connHandle = true → conn.readyToRecv = false →
      s'.Calm d ∨ ∃ con ∈ s.loop.conns d, con.connHandle = true ∧ con.readyToRecv = false := by
  rw [hconns]
  intro d conn hconn hopen hclear
  by_cases hd : d = c
  · subst hd
    rw [update_self] at hconn
    cases hconn
    exact hc hopen hclear
  · rw [update_of_ne hd] at hconn
    exact .inr ⟨conn, hconn, hopen, hclear⟩

/-- A connection changes, but not its readers. -/
theorem Woken.marked {c : ℕ} {conn conn' : ConnImpl} (hs : Woken s)
    (hm : Marked s.loop s'.loop c conn conn')
    (hidle : s'.loop.control.polled = false → s'.batch = []) (hcalm : ∀ d, s.Calm d → s'.Calm d)
    (hc : conn'.connHandle = true → conn'.readyToRecv = false → s'.Calm c ∨
      ∃ con ∈ s.loop.conns c, con.connHandle = true ∧ con.readyToRecv = false)
    (hleaving : ∀ d, s'.loop.control = .leaving d → s.loop.control = .leaving d)
    (hreading : ∀ a d, s.loop.control = .reading d [a] →
      s'.Calm d ∨ s'.loop.control = .reading d [a]) : Woken s' :=
  hs.of (hs.readers.marked hm) hidle hcalm (ready_of_update hm.after hc)
    (fun d h => .inr (hleaving d h))
    fun a d hsleeps hopen => .inr ⟨hm.sleeps hsleeps, hm.open hopen, hreading a d⟩

/-- An awaiter goes on. -/
theorem Woken.freed {a : ℕ} {w : AsyncReceiveAwaiter} (hs : Woken s)
    (hf : Freed s.loop s'.loop a w) (hidle : s'.loop.control.polled = false → s'.batch = [])
    (hcalm : ∀ d, s.Calm d → s'.Calm d)
    (hleaving : ∀ d, s'.loop.control = .leaving d → s'.Calm d)
    (hreading : ∀ b d, b ≠ a → s.loop.control ≠ .reading d [b]) : Woken s' := by
  refine hs.of (hs.readers.freed hf) hidle hcalm ?_ (fun d h => .inl (hleaving d h)) ?_
  · intro d con hcon hopen hclear
    obtain ⟨conn, hconn, hhandle, hflag⟩ := hf.flags hcon
    exact .inr ⟨conn, hconn, hhandle ▸ hopen, hflag ▸ hclear⟩
  · intro b d hsleeps hopen
    obtain ⟨hba, hsleeps⟩ := hf.sleeps hsleeps
    exact .inr ⟨hsleeps, hf.open hopen, fun h => absurd h (hreading b d hba)⟩

/-- What the sockets have to answer where the loop's step relies on them. -/
structure Answered (s s' : Net) (act : Action) : Prop where
  alone : ∀ a c n timeOutFlag r now, act = .receive a c n timeOutFlag r now →
    ∀ conn ∈ s.loop.conns c, conn.recvAwaiter = []
  other : ∀ c, act ≠ .readable c
  calm : ∀ c, s.Calm c → s'.Calm c
  new : ∀ c, act = .connect c → s'.Calm c
  tried : ∀ a c n timeOutFlag now, act = .receive a c n timeOutFlag .again now →
    (s.loop.conns c).any ConnImpl.tries = true → s'.Calm c
  dry : act = .recv .again → ∀ c a rest, s.loop.control = .reading c (a :: rest) → s'.Calm c
  short : ∀ n, act = .recv (.bytes n) → ∀ c a rest, s.loop.control = .reading c (a :: rest) →
    ∀ w ∈ s.loop.awaiters a, n < w.bufferSize → s'.Calm c

/-- A new awaiter is suspended: its socket has just been found empty, or the flag was clear. -/
theorem Woken.suspends {a c n now : ℕ} {timeOutFlag : Bool} {r : Recv} {w : AsyncReceiveAwaiter}
    {conn conn' : ConnImpl} (hs : Woken s) (h : Answered s s' (.receive a c n timeOutFlag r now))
    (hreaders : Readers s'.loop) (hidle : s'.loop.control.polled = false → s'.batch = [])
    (hconn : w.conn = c) (hbefore : s.loop.conns c = some conn)
    (hhandle : conn.connHandle = true) (htried : conn.tries = true → r = .again)
    (hnot : conn.tries = false → conn.readyToRecv = false)
    (hconns : s'.loop.conns = update s.loop.conns c (some conn'))
    (hawaiters : s'.loop.awaiters = update s.loop.awaiters a (some w))
    (hcontrol : s'.loop.control = s.loop.control) : Woken s' := by
  have hcalm : s'.Calm c := by
    cases htries : conn.tries with
    | false => exact h.calm c (hs.ready c conn hbefore hhandle (hnot htries))
    | true =>
      cases htried htries
      refine h.tried a c n timeOutFlag now rfl ?_
      rw [hbefore]
      exact htries
  refine hs.of hreaders hidle h.calm (ready_of_update hconns fun _ _ => .inl hcalm)
    (fun d hleaving => .inr (hcontrol ▸ hleaving)) ?_
  intro b d hsleeps hopen
  by_cases hd : d = c
  · exact .inl (hd ▸ hcalm)
  · rw [IoCtx.Open, hconns, update_of_ne hd] at hopen
    obtain ⟨-, -, hwd⟩ | ⟨-, hsleeps⟩ := sleeps_or_of_update hawaiters hsleeps
    · exact absurd (hwd.symm.trans hconn) hd
    · exact .inr ⟨hsleeps, hopen, fun h => .inr (hcontrol.trans h)⟩

/-- A step of the loop that is no event. -/
theorem Woken.move (hs : Woken s) (hmove : Move s.loop s'.loop act) (h : Answered s s' act)
    (hidle : s'.loop.control.polled = false → s'.batch = []) : Woken s' := by
  have hreaders : Readers s'.loop := hs.readers.move hmove h.alone
  cases hmove with
  | @connects c hnew hconns hawaiters hcontrol =>
    refine hs.of hreaders hidle h.calm (ready_of_update hconns fun _ _ => .inl (h.new c rfl))
      (fun d hleaving => .inr (hcontrol ▸ hleaving)) ?_
    intro b d hsleeps hopen
    by_cases hd : d = c
    · exact .inl (hd ▸ h.new c rfl)
    · rw [IoCtx.Open, hconns, update_of_ne hd] at hopen
      rw [IoCtx.Sleeps, hawaiters] at hsleeps
      exact .inr ⟨hsleeps, hopen, fun h => .inr (hcontrol.trans h)⟩
  | @passes a c n now timeOutFlag r w hnew hsuspended hconns hawaiters hcontrol =>
    refine hs.of hreaders hidle h.calm ?_ (fun d hleaving => .inr (hcontrol ▸ hleaving)) ?_
    · rw [hconns]
      exact fun d conn hconn hopen hclear => .inr ⟨conn, hconn, hopen, hclear⟩
    · intro b d hsleeps hopen
      rw [IoCtx.Open, hconns] at hopen
      obtain ⟨-, hasleep, -⟩ | ⟨-, hsleeps⟩ := sleeps_or_of_update hawaiters hsleeps
      · rw [hsuspended] at hasleep
        cases hasleep
      · exact .inr ⟨hsleeps, hopen, fun h => .inr (hcontrol.trans h)⟩
  | suspends w conn _ _ hconn hbefore hhandle htried hnot hconns hawaiters hcontrol =>
    exact hs.suspends h hreaders hidle hconn hbefore hhandle htried hnot hconns hawaiters hcontrol
  | begins conn hmarked hbefore hcontrol => exact absurd rfl (h.other _)
  | @dries c a rest conn hmarked hbefore hcontrol =>
    have hcalm : s'.Calm c := h.dry rfl c a rest hbefore
    refine hs.marked hmarked hidle h.calm (fun _ _ => .inl hcalm) ?_ ?_
    · intro d hleaving
      cases hcontrol.symm.trans hleaving
    · intro b d hreading
      cases hbefore.symm.trans hreading
      exact .inl hcalm
  | @receives c a rest r w hfreed hbefore hcontrol =>
    refine hs.freed hfreed hidle h.calm ?_ ?_
    · intro d hleaving
      obtain hafter | ⟨hafter, n, rfl, hshort⟩ := hcontrol
      · cases hafter.symm.trans hleaving
      · cases hafter.symm.trans hleaving
        exact h.short n rfl c a rest hbefore w hfreed.before hshort
    · intro b d hba hreading
      cases hbefore.symm.trans hreading
      exact hba rfl
  | @leaves c conn hmarked hbefore hcontrol =>
    have hcalm : s'.Calm c := h.calm c (hs.leaving c hbefore)
    refine hs.marked hmarked hidle h.calm (fun _ _ => .inl hcalm) ?_ ?_
    · intro d hleaving
      cases hcontrol.symm.trans hleaving
    · intro b d hreading
      cases hbefore.symm.trans hreading
  | marks conn conn' hmarked hflag hcontrol =>
    exact hs.marked hmarked hidle h.calm
      (fun hopen hclear => .inr ⟨conn, hmarked.before, hmarked.handle hopen, hflag ▸ hclear⟩)
      (fun d hleaving => hcontrol ▸ hleaving) fun b d hreading => .inr (hcontrol.trans hreading)
  | frees a w hfreed hbefore hcontrol =>
    refine hs.freed hfreed hidle h.calm ?_ ?_
    · intro d hleaving
      rw [hleaving] at hcontrol
      cases hcontrol
    · intro b d _ hreading
      rw [hreading] at hbefore
      cases hbefore
  | turns hconns hawaiters hcontrol _ =>
    refine hs.of hreaders hidle h.calm ?_ ?_ ?_
    · rw [hconns]
      exact fun d conn hconn hopen hclear => .inr ⟨conn, hconn, hopen, hclear⟩
    · intro d hleaving
      obtain hsame | ⟨-, hafter⟩ := hcontrol
      · exact .inr (hsame ▸ hleaving)
      · rw [hleaving] at hafter
        cases hafter
    · intro b d hsleeps hopen
      rw [IoCtx.Open, hconns] at hopen
      rw [IoCtx.Sleeps, hawaiters] at hsleeps
      refine .inr ⟨hsleeps, hopen, fun hreading => ?_⟩
      obtain hsame | ⟨hbefore, -⟩ := hcontrol
      · exact .inr (hsame.trans hreading)
      · rw [hreading] at hbefore
        cases hbefore

/-- No event is left when `epoll_wait` comes, as the loop's round ends with its events. -/
theorem Woken.idle_of_move (hs : Woken s) (hmove : Move s.loop s'.loop act)
    (hact : ∀ c, act ≠ .readable c) (hbatch : s'.batch = s.batch)
    (hdone : act = .done → s.loop.control = .events → s.batch = [])
    (hpolled : s'.loop.control.polled = false) : s'.batch = [] := by
  rw [hbatch]
  cases hmove with
  | connects _ _ _ hcontrol => exact hs.idle (hcontrol ▸ hpolled)
  | passes _ _ _ _ _ hcontrol => exact hs.idle (hcontrol ▸ hpolled)
  | suspends _ _ _ _ _ _ _ _ _ _ _ hcontrol => exact hs.idle (hcontrol ▸ hpolled)
  | begins _ _ _ _ => exact absurd rfl (hact _)
  | dries _ _ _ hcontrol =>
    rw [hcontrol] at hpolled
    cases hpolled
  | receives _ _ _ hcontrol =>
    obtain hcontrol | ⟨hcontrol, -⟩ := hcontrol
    all_goals
      rw [hcontrol] at hpolled
      cases hpolled
  | leaves _ _ _ hcontrol =>
    rw [hcontrol] at hpolled
    cases hpolled
  | marks _ _ _ _ hcontrol => exact hs.idle (hcontrol ▸ hpolled)
  | frees _ _ _ hbefore _ => exact hs.idle hbefore
  | turns _ _ _ hidle =>
    obtain hbefore | ⟨hact, hbefore⟩ := hidle hpolled
    · exact hs.idle hbefore
    · exact hdone hact hbefore

end

/-! ### Sockets and events -/

section
variable {k : Sock} {r : Recv} {n size : ℕ}

theorem Sock.unread_of_take (h : (k.take r).Unread) : k.Unread := by
  cases r with
  | bytes n => exact h.imp (fun h => Nat.lt_of_lt_of_le h (Nat.sub_le _ _)) id
  | again => exact h
  | error => exact h

theorem Sock.take_edge : (k.take r).edge = k.edge := by
  cases r <;> rfl

/-- A callback's receive leaves no more to read than there was. -/
theorem Sock.unread_of_drain (h : (k.drain size r).Unread) : k.Unread := by
  cases r with
  | bytes n =>
    obtain havail | ⟨hfinished, hpassed⟩ := h
    · exact .inl (Nat.lt_of_lt_of_le havail (Nat.sub_le _ _))
    · refine .inr ⟨hfinished, ?_⟩
      rw [drain] at hpassed
      dsimp only at hpassed
      split at hpassed
      · exact (Bool.or_eq_false_iff.mp hpassed).1
      · exact hpassed
  | again => exact h
  | error => exact h

theorem Sock.drain_edge : (k.drain size r).edge = k.edge := by
  cases r <;> rfl

theorem Sock.not_unread_of_again (h : k.recv size = .again) : ¬k.Unread := by
  rw [recv] at h
  split at h
  · cases h
  · rename_i havail
    split at h
    · cases h
    · rename_i hfinished
      exact fun hunread => hunread.elim havail fun h => hfinished h.1

/-- A short read empties the socket, and passes the end of the stream where it is there. -/
theorem Sock.not_unread_of_short (h : k.recv size = .bytes n) (hshort : n < size) :
    ¬(k.drain size (.bytes n)).Unread := by
  have hall : k.avail - n = 0 := by
    rw [recv] at h
    split at h
    · cases h
      omega
    · omega
  intro hunread
  obtain havail | ⟨hfinished, hpassed⟩ := hunread
  · exact Nat.lt_irrefl 0 (hall ▸ havail)
  · simp only [drain, take, if_pos hshort, Bool.or_eq_false_iff] at hfinished hpassed
    rw [hpassed.2] at hfinished
    cases hfinished

theorem Sock.readable_of_unread (h : k.Unread) : k.readable = true := by
  rw [readable, Bool.or_eq_true, decide_eq_true_eq]
  exact h.imp id And.left

end

section
variable {multiple : Bool} {s s' : Net} {c : ℕ}

/-- A socket that has no more to read than before, or has a new event. -/
theorem calm_of_update {k : Sock} (hsock : s'.sock = update s.sock c k)
    (hbatch : s'.batch = s.batch)
    (hk : k.edge = true ∨ (k.Unread → (s.sock c).Unread) ∧ k.edge = (s.sock c).edge) :
    ∀ d, s.Calm d → s'.Calm d := by
  intro d hcalm hunread
  by_cases hd : d = c
  · subst hd
    rw [hsock, update_self] at hunread
    rw [Net.Pending, hsock, update_self, hbatch]
    obtain hedge | ⟨hless, hedge⟩ := hk
    · exact .inl hedge
    · exact hedge ▸ hcalm (hless hunread)
  · rw [hsock, update_of_ne hd] at hunread
    rw [Net.Pending, hsock, update_of_ne hd, hbatch]
    exact hcalm hunread

theorem calm_of_edge {k : Sock} (hsock : s.sock c = k) (h : k.edge = true) : s.Calm c := by
  intro _
  rw [Net.Pending, hsock]
  exact .inl h

theorem calm_of_not_unread {k : Sock} (hsock : s.sock c = k) (h : ¬k.Unread) : s.Calm c := by
  intro hunread
  rw [hsock] at hunread
  exact absurd hunread h

/-- Something happens at a socket. -/
theorem Woken.arrives {k : Sock} (hs : Woken s) (hk : k.edge = true) :
    Woken { s with sock := update s.sock c k } :=
  hs.of hs.readers hs.idle (calm_of_update rfl rfl (.inl hk))
    (fun _ conn hconn hopen hclear => .inr ⟨conn, hconn, hopen, hclear⟩) (fun _ => .inr)
    fun _ _ hsleeps hopen => .inr ⟨hsleeps, hopen, .inr⟩

theorem Woken.connect {loop : IoCtx} (hs : Woken s)
    (h : step multiple s.loop (.connect c) = some loop) :
    Woken { s with loop := loop, sock := update s.sock c { s.sock c with edge := true } } := by
  have hmove := move_of_step hs.readers h
  refine hs.move hmove ?_ ?_
  · exact {
      alone := fun _ _ _ _ _ _ h => (by cases h)
      other := fun _ h => (by cases h)
      calm := calm_of_update rfl rfl (.inl rfl)
      new := fun d h => (by
        cases h
        exact calm_of_edge (update_self ..) rfl)
      tried := fun _ _ _ _ _ h => (by cases h)
      dry := fun h => (by cases h)
      short := fun _ h => (by cases h) }
  · exact hs.idle_of_move hmove (fun _ h => (by cases h)) rfl fun h => (by cases h)

theorem Woken.receive {a n now : ℕ} {timeOutFlag fails : Bool} {loop : IoCtx} (hs : Woken s)
    (halone : ∀ conn ∈ s.loop.conns c, conn.recvAwaiter = [])
    (h : step multiple s.loop (.receive a c n timeOutFlag (s.recv c n fails) now) = some loop) :
    Woken { s with
      loop := loop
      sock := if (s.loop.conns c).any ConnImpl.tries = true then
          update s.sock c ((s.sock c).take (s.recv c n fails))
        else s.sock } := by
  have hmove := move_of_step hs.readers h
  refine hs.move hmove ?_ ?_
  · refine ⟨?_, fun _ h => (by cases h), ?_, fun _ h => (by cases h), ?_, fun h => (by cases h),
      fun _ h => (by cases h)⟩
    · intro b d m flag r time hact
      cases hact
      exact halone
    · split
      · exact calm_of_update rfl rfl (.inr ⟨Sock.unread_of_take, Sock.take_edge⟩)
      · exact fun d hcalm => hcalm
    · intro b d m flag time hact htries
      cases fails with
      | true => cases hact
      | false =>
        injection hact with _ hd _ _ hr _
        subst hd
        have hagain : (s.sock c).recv n = .again := hr
        rw [if_pos htries, hr]
        exact calm_of_not_unread (update_self ..) (Sock.not_unread_of_again hagain)
  · exact hs.idle_of_move hmove (fun _ h => (by cases h)) rfl fun h => (by cases h)

/-- `epoll_wait`: an event with something to read goes from the socket to the loop. -/
theorem Woken.poll {cs : List ℕ} {loop : IoCtx} (hs : Woken s) (hempty : s.loop.taskQueue = [])
    (h : step multiple s.loop .pop = some loop) :
    Woken {
      loop := loop
      sock := fun c => if c ∈ cs then { s.sock c with edge := false } else s.sock c
      batch := cs.filter fun c => (s.sock c).readable } := by
  have hmove := move_of_step hs.readers h
  rw [step, hempty] at h
  split at h
  · rename_i hcontrol
    cases h
    have hbatch : s.batch = [] := by
      apply hs.idle
      rw [hcontrol]
      rfl
    refine hs.move hmove ?_ fun h => by cases h
    refine ⟨fun _ _ _ _ _ _ h => (by cases h), fun _ h => (by cases h), ?_,
      fun _ h => (by cases h), fun _ _ _ _ _ h => (by cases h), fun h => (by cases h),
      fun _ h => (by cases h)⟩
    intro d hcalm hunread
    rw [Net.Pending, List.mem_filter]
    dsimp only at hunread ⊢
    by_cases hd : d ∈ cs
    · rw [if_pos hd] at hunread
      exact .inr ⟨hd, Sock.readable_of_unread hunread⟩
    · rw [if_neg hd] at hunread ⊢
      obtain hedge | hmem := hcalm hunread
      · exact .inl hedge
      · rw [hbatch] at hmem
        exact absurd hmem List.not_mem_nil
  · cases h

/-- The callback begins: it is about to read for the connection's reader. -/
theorem Woken.readable {batch : List ℕ} {loop : IoCtx} (hs : Woken s)
    (hbatch : s.batch = c :: batch) (h : step multiple s.loop (.readable c) = some loop) :
    Woken { s with loop := loop, batch := batch } := by
  -- the other connections' events stay
  have hcalm : ∀ d, d ≠ c → s.Calm d → Net.Calm { s with loop := loop, batch := batch } d := by
    intro d hd hcalm hunread
    refine (hcalm hunread).imp id fun hmem => ?_
    rw [hbatch] at hmem
    exact List.mem_of_ne_of_mem hd hmem
  rw [step] at h
  split at h
  · rename_i hcontrol
    have hbusy : ∀ a d, s.loop.control ≠ .reading d [a] := by
      rw [hcontrol]
      exact fun _ _ h => by cases h
    split at h
    · cases h
    · rename_i conn hconn
      split at h
      · cases h
        have hmarked : Marked s.loop
            { s.loop with
              conns := update s.loop.conns c (some { conn with readyToRecv := true })
              control := .reading c conn.recvAwaiter } c conn
            { conn with readyToRecv := true } := ⟨hconn, rfl, rfl, id, rfl⟩
        constructor
        · exact hs.readers.marked hmarked
        · exact fun h => by cases h
        · intro d con hcon hopen hclear
          by_cases hd : d = c
          · subst hd
            dsimp only at hcon
            rw [update_self] at hcon
            cases hcon
            cases hclear
          · dsimp only at hcon
            rw [update_of_ne hd] at hcon
            exact hcalm d hd (hs.ready d con hcon hopen hclear)
        · exact fun _ h => by cases h
        · intro a d hsleeps hopen
          by_cases hd : d = c
          · subst hd
            obtain ⟨w, hw, hsuspended, hwd⟩ := hmarked.sleeps hsleeps
            obtain ⟨-, con, hcon, honly⟩ := hs.readers.sleeps a w hw hsuspended
            obtain ⟨con', hcon', hhandle⟩ := hmarked.open hopen
            rw [hwd] at hcon
            cases hcon.symm.trans hconn
            cases hcon'.symm.trans hconn
            exact .inr (by rw [honly hhandle])
          · obtain h | h := hs.waiting a d (hmarked.sleeps hsleeps) (hmarked.open hopen)
            · exact .inl (hcalm d hd h)
            · exact absurd h (hbusy a d)
      · rename_i hclosed
        cases h
        have hne : ∀ d, s.loop.Open d → d ≠ c := by
          intro d hopen hd
          obtain ⟨con, hcon, hopen⟩ := hopen
          rw [hd] at hcon
          cases hcon.symm.trans hconn
          exact hclosed hopen
        constructor
        · exact hs.readers
        · intro hpolled
          rw [hcontrol] at hpolled
          cases hpolled
        · exact fun d con hcon hopen hclear =>
            hcalm d (hne d ⟨con, hcon, hopen⟩) (hs.ready d con hcon hopen hclear)
        · intro d hleaving
          cases hcontrol.symm.trans hleaving
        · intro a d hsleeps hopen
          obtain h | h := hs.waiting a d hsleeps hopen
          · exact .inl (hcalm d (hne d hopen) h)
          · exact absurd h (hbusy a d)
  · cases h

theorem Woken.recv {a : ℕ} {rest : List ℕ} {w : AsyncReceiveAwaiter} {fails : Bool} {loop : IoCtx}
    (hs : Woken s) (hcontrol : s.loop.control = .reading c (a :: rest))
    (hw : s.loop.awaiters a = some w)
    (h : step multiple s.loop (.recv (s.recv c w.bufferSize fails)) = some loop) :
    Woken { s with
      loop := loop
      sock := update s.sock c
        ((s.sock c).drain w.bufferSize (s.recv c w.bufferSize fails)) } := by
  have hmove := move_of_step hs.readers h
  refine hs.move hmove ?_ ?_
  · refine ⟨fun _ _ _ _ _ _ h => (by cases h), fun _ h => (by cases h), ?_,
      fun _ h => (by cases h), fun _ _ _ _ _ h => (by cases h), ?_, ?_⟩
    · exact calm_of_update rfl rfl (.inr ⟨Sock.unread_of_drain, Sock.drain_edge⟩)
    · intro hagain d b l hreading
      cases hcontrol.symm.trans hreading
      cases fails with
      | true => cases hagain
      | false =>
        injection hagain with hrecv
        have hr : (s.sock c).recv w.bufferSize = .again := hrecv
        rw [hrecv]
        exact calm_of_not_unread (update_self ..) (Sock.not_unread_of_again hr)
    · intro n hbytes d b l hreading v hv hshort
      cases hcontrol.symm.trans hreading
      cases hw.symm.trans hv
      cases fails with
      | true => cases hbytes
      | false =>
        injection hbytes with hrecv
        have hr : (s.sock c).recv w.bufferSize = .bytes n := hrecv
        rw [hrecv]
        exact calm_of_not_unread (update_self ..) (Sock.not_unread_of_short hr hshort)
  · exact hs.idle_of_move hmove (fun _ h => (by cases h)) rfl fun h => (by cases h)

theorem Woken.run {act : Action} {loop : IoCtx} (hs : Woken s) (hallows : s.allows act = true)
    (h : step multiple s.loop act = some loop) : Woken { s with loop := loop } := by
  have hmove := move_of_step hs.readers h
  refine hs.move hmove ?_ ?_
  · refine ⟨?_, ?_, fun _ hcalm => hcalm, ?_, ?_, ?_, ?_⟩
    · intro _ _ _ _ _ _ hact
      subst hact
      cases hallows
    · intro _ hact
      subst hact
      cases hallows
    · intro _ hact
      subst hact
      cases hallows
    · intro _ _ _ _ _ hact
      subst hact
      cases hallows
    · intro hact
      subst hact
      cases hallows
    · intro _ hact
      subst hact
      cases hallows
  · refine hs.idle_of_move hmove ?_ rfl ?_
    · intro _ hact
      subst hact
      cases hallows
    · intro hact hevents
      subst hact
      simpa [Net.allows, hevents] using hallows

/-- **One step.** -/
theorem Woken.step {e : Event} (hs : Woken s) (hone : OneReader s e)
    (h : Net.step multiple s e = some s') : Woken s' := by
  cases e with
  | connect c =>
    obtain ⟨loop, hloop, rfl⟩ := Option.map_eq_some_iff.mp h
    exact hs.connect hloop
  | receive a c n timeOutFlag fails now =>
    obtain ⟨loop, hloop, rfl⟩ := Option.map_eq_some_iff.mp h
    exact hs.receive hone hloop
  | arrive c n =>
    cases h
    exact hs.arrives rfl
  | finish c =>
    cases h
    exact hs.arrives rfl
  | stir c =>
    cases h
    exact hs.arrives rfl
  | poll cs =>
    rw [Net.step] at h
    split at h
    · rename_i hcs
      obtain ⟨loop, hloop, rfl⟩ := Option.map_eq_some_iff.mp h
      exact hs.poll hcs.1 hloop
    · cases h
  | readable =>
    rw [Net.step] at h
    split at h
    · cases h
    · rename_i hbatch
      obtain ⟨loop, hloop, rfl⟩ := Option.map_eq_some_iff.mp h
      exact hs.readable hbatch hloop
  | recv fails =>
    rw [Net.step] at h
    split at h
    · rename_i hcontrol
      split at h
      · cases h
      · rename_i hw
        obtain ⟨loop, hloop, rfl⟩ := Option.map_eq_some_iff.mp h
        exact hs.recv hcontrol hw hloop
    · cases h
  | run act =>
    rw [Net.step] at h
    split at h
    · rename_i hallows
      obtain ⟨loop, hloop, rfl⟩ := Option.map_eq_some_iff.mp h
      exact hs.run hallows hloop
    · cases h

/-- The invariant holds in every run with one reader at a time. -/
theorem woken_of_reachable (h : (net multiple).Reachable OneReader s) : Woken s :=
  h.invariant Woken (woken_start multiple) fun _ _ _ hs hone hstep => hs.step hone hstep

end

/-! ### The bytes reach their reader -/

section
variable {multiple : Bool} {s : Net} {a c : ℕ}

/-- Data resumes a suspended awaiter whose connection has a reader in its list. -/
theorem resume_returns {s : IoCtx} {w : AsyncReceiveAwaiter} {conn : ConnImpl} {b : ℕ}
    {rest : List ℕ} (n : ℕ) (hw : s.awaiters a = some w) (hsuspended : w.suspended = true)
    (hreturn : w.suspendReturn = true) (hconn : s.conns w.conn = some conn)
    (hlist : conn.recvAwaiter = b :: rest) :
    ∃ s', resume s a n = some s' ∧ ∃ w' ∈ s'.awaiters a, w'.result = some (.returned n) := by
  have hclosed : ¬(n : ℤ) = kClosedSocketReady := by
    rw [kClosedSocketReady]
    omega
  have htime : ¬(n : ℤ) = kTimeOut := by
    rw [kTimeOut]
    omega
  simp only [resume, hw, if_pos hsuspended, awaitResume, if_neg hclosed, if_neg htime,
    popRecvAwaiter, if_pos hreturn, hconn, hlist, if_neg (Int.not_lt.mpr (Int.natCast_nonneg n))]
  split
  · exact ⟨_, rfl, _, update_self .., rfl⟩
  · exact ⟨_, rfl, _, update_self .., rfl⟩

/-- There is something for a receive to return. -/
theorem Sock.recv_of_unread {k : Sock} (h : k.Unread) (size : ℕ) :
    ∃ n, k.recv size = .bytes n := by
  rw [recv]
  split
  · exact ⟨_, rfl⟩
  · rename_i havail
    rw [if_pos (h.resolve_left havail).1]
    exact ⟨_, rfl⟩

/-- The callback's receive hands its bytes to the next awaiter. -/
theorem recv_step (multiple : Bool) {rest : List ℕ} {w : AsyncReceiveAwaiter} {n : ℕ}
    {loop : IoCtx} (hcontrol : s.loop.control = .reading c (a :: rest))
    (hw : s.loop.awaiters a = some w)
    (hrecv : s.recv c w.bufferSize false = .bytes n)
    (hloop : resume { s.loop with
      control := if n < w.bufferSize then .leaving c else .reading c rest } a n = some loop) :
    ∃ s', Net.step multiple s (.recv false) = some s' ∧ s'.loop = loop := by
  refine ⟨{ s with
    loop := loop, sock := update s.sock c ((s.sock c).drain w.bufferSize (.bytes n)) }, ?_, rfl⟩
  have hstep : step multiple s.loop (.recv (.bytes n)) = some loop := by
    simp only [step, hcontrol, hw]
    exact hloop
  simp only [Net.step, hcontrol, hw, hrecv, hstep, Option.map_some]

/-- What is unread when the loop calls `epoll_wait` goes to the reader with that call. -/
theorem Woken.served (hs : Woken s) (hsleeps : s.loop.Sleeps a c) (hopen : s.loop.Open c)
    (hunread : (s.sock c).Unread) (hcontrol : s.loop.control = .pop)
    (hempty : s.loop.taskQueue = []) :
    ∃ w ∈ s.loop.awaiters a, ∃ n, (s.sock c).recv w.bufferSize = .bytes n ∧
      ∃ s', (net multiple).run s [.poll [c], .readable, .recv false] = some s' ∧
        ∃ w' ∈ s'.loop.awaiters a, w'.result = some (.returned n) := by
  obtain ⟨w, hw, hsuspended, rfl⟩ := hsleeps
  obtain ⟨n, hn⟩ := Sock.recv_of_unread hunread w.bufferSize
  refine ⟨w, hw, n, hn, ?_⟩
  obtain ⟨hreturn, conn, hconn, honly⟩ := hs.readers.sleeps a w hw hsuspended
  obtain ⟨con, hcon, hhandle⟩ := hopen
  cases hconn.symm.trans hcon
  have hlist : conn.recvAwaiter = [a] := honly hhandle
  -- the loop has no events left, so that the socket has its event
  have hedge : (s.sock w.conn).edge = true := by
    have hbatch : s.batch = [] := by
      apply hs.idle
      rw [hcontrol]
      rfl
    have hawake := hs.waiting a w.conn ⟨w, hw, hsuspended, rfl⟩ ⟨conn, hconn, hhandle⟩
    rw [hcontrol] at hawake
    obtain hpending := hawake.resolve_right (fun h => by cases h) hunread
    rw [Net.Pending, hbatch] at hpending
    exact hpending.resolve_right List.not_mem_nil
  let k : Sock := { s.sock w.conn with edge := false }
  let polled : Net :=
    { loop := { s.loop with control := .events }
      sock := fun d => if d ∈ [w.conn] then { s.sock d with edge := false } else s.sock d
      batch := [w.conn] }
  let begun : Net :=
    { polled with
      loop := { polled.loop with
        conns := update s.loop.conns w.conn (some { conn with readyToRecv := true })
        control := .reading w.conn [a] }
      batch := [] }
  have hsock : begun.sock w.conn = k := if_pos (List.mem_singleton_self w.conn)
  have hpoll : Net.step multiple s (.poll [w.conn]) = some polled := by
    have hall : ∀ d ∈ [w.conn], (s.sock d).edge = true ∧ (s.loop.conns d).isSome = true := by
      intro d hd
      rw [List.mem_singleton.mp hd]
      exact ⟨hedge, Option.isSome_of_mem hconn⟩
    have hkept : [w.conn].filter (fun d => (s.sock d).readable) = [w.conn] :=
      List.filter_cons_of_pos (Sock.readable_of_unread hunread)
    rw [Net.step, if_pos ⟨hempty, List.nodup_singleton _, hall⟩, hkept]
    simp only [Tinyasync.step, hcontrol, hempty, Option.map_some, polled]
  have hbegin : Net.step multiple polled .readable = some begun := by
    have hconn' : polled.loop.conns w.conn = some conn := hconn
    simp only [Net.step, Tinyasync.step, polled, begun]
    rw [hconn]
    simp only [if_pos hhandle, hlist, Option.map_some]
  have hrecv : begun.recv w.conn w.bufferSize false = .bytes n := by
    rw [Net.recv, if_neg (by decide), hsock]
    exact hn
  obtain ⟨loop, hloop, w', hw', hresult⟩ :=
    resume_returns (a := a)
      (s := { begun.loop with
        control := if n < w.bufferSize then .leaving w.conn else .reading w.conn [] })
      n hw hsuspended hreturn (update_self ..) hlist
  obtain ⟨s', hs', rfl⟩ := recv_step multiple (s := begun) rfl hw hrecv hloop
  refine ⟨s', ?_, w', hw', hresult⟩
  show (Net.step multiple s (.poll [w.conn])).bind _ = some s'
  rw [hpoll]
  show (Net.step multiple polled .readable).bind _ = some s'
  rw [hbegin]
  show (Net.step multiple begun (.recv false)).bind _ = some s'
  rw [hs']
  rfl

end

/-- A reader is suspended, three bytes come in, and the loop has come to its `epoll_wait`. -/
def readerRun : List Event :=
  [.connect 0, .receive 0 0 4 false false 5, .arrive 0 3, .run (.clock 6), .run .expire]

theorem readerRun_one : (net false).Meets OneReader (net false).start readerRun := by
  refine ⟨trivial, fun s hs => ⟨fun conn hconn => ?_, fun _ _ => ⟨trivial, fun _ _ =>
    ⟨trivial, fun _ _ => ⟨trivial, fun _ _ => trivial⟩⟩⟩⟩⟩
  cases hs
  cases hconn
  rfl

end Rojcpp.Tinyasync
