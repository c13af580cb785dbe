import Mathlib.Data.Int.Notation
import Mathlib.Data.List.Basic
import Rojcpp.Lib.Ring
import Rojcpp.Lib.System

/-!
# The event loop and the receive awaiters

`IoCtx::run` of one thread: it posts the tasks of the awaiters whose time is over, then runs one
task, or, when there is none, the callbacks of the events that `epoll_wait` reports.  A receive
awaiter is suspended when there is nothing to read; it is resumed by readable data, by the task
that its expiry or a `close` has posted, or by an error.  Times are nanoseconds.

An awaiter is named by a number that is never used again.  The coroutines' own steps, which start
reads and close connections, come at any time.  The list behind `m_recv_awaiter` is a list; the
nodes of `m_time_queue` have their two pointers, and the head of the queue is the node `none`.
-/

namespace Rojcpp.Tinyasync

open Rojcpp.Lib Function

/-! ### Awaiters and connections -/

/-- `k_closed_socket_ready`. -/
def kClosedSocketReady : ℤ := -2

/-- `k_time_out`. -/
def kTimeOut : ℤ := -3

/-- What `::recv` returns; `again` stands for `EAGAIN` and `EWOULDBLOCK`. -/
inductive Recv where
  | bytes (n : ℕ)
  | again
  | error
  deriving DecidableEq, Repr

/-- How `co_await` of a read ends: it returns, or throws because the socket is closed, because the
time is over, or because the receive failed. -/
inductive Outcome where
  | returned (nbytes : ℤ)
  | closedSocket
  | timeOut
  | recvError
  deriving DecidableEq, Repr

/-- `AsyncReceiveAwaiter`, with the coroutine at its `co_await`: whether it is suspended there, and
how it has ended. -/
structure AsyncReceiveAwaiter where
  conn : ℕ
  bufferSize : ℕ
  timeoutFlag : Bool
  bytesTransfer : ℤ
  suspendReturn : Bool
  expire : ℕ
  suspended : Bool
  result : Option Outcome
  deriving DecidableEq, Repr

/-- The constructor. -/
def AsyncReceiveAwaiter.new (conn n : ℕ) (timeOutFlag : Bool) : AsyncReceiveAwaiter :=
  ⟨conn, n, timeOutFlag, 0, false, 0, false, none⟩

/-- `ConnImpl`: whether it has its handle, and its readers from the front of the list. -/
structure ConnImpl where
  connHandle : Bool
  recvShutdown : Bool
  readyToRecv : Bool
  recvAwaiter : List ℕ
  deriving DecidableEq, Repr

/-- The constructor. -/
def ConnImpl.new : ConnImpl := ⟨true, false, true, []⟩

/-- `PostTask`, by its callback: `on_timeout_outcallbak`, `wakeup_awaiter_on_close`, or another
component's. -/
inductive PostTask where
  | timeout (awaiter : ℕ)
  | close (conn : ℕ)
  | other
  deriving DecidableEq, Repr

/-- Where `run` is: at the top of the loop, scanning the time queue, before it takes a task, in
`wakeup_awaiter_on_close`, between two events, or in `on_callback`, with the awaiters still to be
resumed or about to leave. -/
inductive Control where
  | top
  | scan (now : ℕ)
  | pop
  | wakeup (awaiters : List ℕ)
  | events
  | reading (conn : ℕ) (awaiters : List ℕ)
  | leaving (conn : ℕ)
  deriving DecidableEq, Repr

/-- `IoCtx` with its awaiters and connections. -/
structure IoCtx where
  timeQueue : Links (Option ℕ)
  taskQueue : List PostTask
  awaiters : ℕ → Option AsyncReceiveAwaiter
  conns : ℕ → Option ConnImpl
  control : Control

/-- The steps: a new connection; a coroutine that awaits a read, shuts down or closes; a task of
another component; and the steps of the loop. -/
inductive Action where
  | connect (conn : ℕ)
  | receive (awaiter conn n : ℕ) (timeOutFlag : Bool) (r : Recv) (now : ℕ)
  | shutdownRecv (conn : ℕ)
  | close (conn : ℕ)
  | post
  | clock (now : ℕ)
  | expire
  | pop
  | wake
  | readable (conn : ℕ)
  | recv (r : Recv)
  | done
  deriving DecidableEq, Repr

/-! ### Resuming -/

/-- The `co_await` of an awaiter ends. -/
def IoCtx.finish (s : IoCtx) (a : ℕ) (w : AsyncReceiveAwaiter) (o : Outcome) : IoCtx :=
  { s with awaiters := update s.awaiters a (some { w with suspended := false, result := some o }) }

/-- An awaiter that was suspended takes the front of its connection's list away, whichever that
is. -/
def popRecvAwaiter (s : IoCtx) (w : AsyncReceiveAwaiter) : Option IoCtx :=
  if w.suspendReturn = true then
    match s.conns w.conn with
    | none => none
    | some conn =>
      match conn.recvAwaiter with
      | [] => none
      | _ :: rest =>
        some { s with conns := update s.conns w.conn (some { conn with recvAwaiter := rest }) }
  else some s

/-- `await_resume`. -/
def awaitResume (s : IoCtx) (a : ℕ) (w : AsyncReceiveAwaiter) : Option IoCtx :=
  if w.bytesTransfer = kClosedSocketReady then some (s.finish a w .closedSocket)
  else if w.bytesTransfer = kTimeOut then some (s.finish a w .timeOut)
  else
    match popRecvAwaiter s w with
    | none => none
    | some s =>
      if w.bytesTransfer < 0 then some (s.finish a w .recvError)
      else if w.timeoutFlag = true then
        some ({ s with timeQueue := s.timeQueue.removeSelf (some a) }.finish a w
          (.returned w.bytesTransfer))
      else some (s.finish a w (.returned w.bytesTransfer))

/-- `TINYASYNC_RESUME` of a suspended awaiter, after `m_bytes_transfer` is set.  There is no
behaviour for a coroutine that is not suspended there. -/
def resume (s : IoCtx) (a : ℕ) (bytesTransfer : ℤ) : Option IoCtx :=
  match s.awaiters a with
  | none => none
  | some w =>
    if w.suspended = true then awaitResume s a { w with bytesTransfer := bytesTransfer } else none

/-! ### Coroutines -/

/-- `post_time_out`: the awaiter's node comes at the back of the queue, ten seconds from now. -/
def IoCtx.postTimeOut (s : IoCtx) (a : ℕ) : IoCtx :=
  { s with timeQueue := s.timeQueue.push (s.timeQueue.prev none) (some a) }

/-- `await_suspend` once there is nothing to read. -/
def suspend (s : IoCtx) (a : ℕ) (w : AsyncReceiveAwaiter) (conn : ConnImpl) (now : ℕ) : IoCtx :=
  let s := if w.timeoutFlag = true then s.postTimeOut a else s
  let expire := if w.timeoutFlag = true then now + 10 * 1000 * 1000000 else w.expire
  { s with
    conns := update s.conns w.conn (some { conn with recvAwaiter := a :: conn.recvAwaiter })
    awaiters := update s.awaiters a
      (some { w with expire := expire, suspendReturn := true, suspended := true }) }

/-- `co_await` of `async_read` or `async_read_timeout` with a new awaiter: `await_ready`, then
`await_suspend`, which tries to receive, and `await_resume` when it does not suspend. -/
def receive (s : IoCtx) (a : ℕ) (w : AsyncReceiveAwaiter) (r : Recv) (now : ℕ) : Option IoCtx :=
  match s.conns w.conn with
  | none => none
  | some conn =>
    let s := { s with timeQueue := s.timeQueue.init (some a) }
    if conn.connHandle = false ∨ conn.recvShutdown = true then
      awaitResume s a { w with bytesTransfer := kClosedSocketReady }
    else if conn.readyToRecv = true then
      match r with
      | .bytes n => awaitResume s a { w with suspendReturn := false, bytesTransfer := n }
      | .again => some (suspend s a w { conn with readyToRecv := false } now)
      | .error => some (s.finish a w .recvError)
    else some (suspend s a w conn now)

/-! ### Tasks and events -/

/-- `on_timeout_outcallbak`. -/
def onTimeout (s : IoCtx) (a : ℕ) : Option IoCtx :=
  match s.awaiters a with
  | none => none
  | some w =>
    match s.conns w.conn with
    | none => none
    | some conn =>
      resume { s with
        conns := update s.conns w.conn
          (some { conn with recvAwaiter := conn.recvAwaiter.erase a }) } a kTimeOut

/-- One step.  With `multiple`, `post_task` waits for the lock that the scan holds, so that the scan
does not go on from an expired node. -/
def step (multiple : Bool) (s : IoCtx) : Action → Option IoCtx
  | .connect c =>
    match s.conns c with
    | some _ => none
    | none => some { s with conns := update s.conns c (some ConnImpl.new) }
  | .receive a c n timeOutFlag r now =>
    match s.awaiters a with
    | some _ => none
    | none => receive s a (AsyncReceiveAwaiter.new c n timeOutFlag) r now
  | .shutdownRecv c =>
    match s.conns c with
    | none => none
    | some conn =>
      some { s with conns := update s.conns c (some { conn with recvShutdown := true }) }
  | .close c =>
    match s.conns c with
    | none => none
    | some conn =>
      if conn.connHandle = true then
        some { s with
          conns := update s.conns c (some { conn with connHandle := false, recvShutdown := true })
          taskQueue := s.taskQueue ++ [.close c] }
      else none
  | .post => some { s with taskQueue := s.taskQueue ++ [.other] }
  | .clock now =>
    match s.control with
    | .top => some { s with control := .scan now }
    | _ => none
  | .expire =>
    match s.control with
    | .scan now =>
      match s.timeQueue.next none with
      | none => some { s with control := .pop }
      | some a =>
        match s.awaiters a with
        | none => none
        | some w =>
          if w.expire < now then
            if multiple = true then none
            else
              some { s with
                timeQueue := (s.timeQueue.removeSelf (some a)).removeSelf (some a)
                taskQueue := s.taskQueue ++ [.timeout a] }
          else some { s with control := .pop }
    | _ => none
  | .pop =>
    match s.control with
    | .pop =>
      match s.taskQueue with
      | [] => some { s with control := .events }
      | .other :: tasks => some { s with taskQueue := tasks, control := .top }
      | .timeout a :: tasks => onTimeout { s with taskQueue := tasks, control := .top } a
      | .close c :: tasks =>
        match s.conns c with
        | none => none
        | some conn => some { s with taskQueue := tasks, control := .wakeup conn.recvAwaiter }
    | _ => none
  | .wake =>
    match s.control with
    | .wakeup (a :: rest) => resume { s with control := .wakeup rest } a (-1)
    | _ => none
  | .readable c =>
    match s.control with
    | .events =>
      match s.conns c with
      | none => none
      | some conn =>
        if conn.connHandle = true then
          some { s with
            conns := update s.conns c (some { conn with readyToRecv := true })
            control := .reading c conn.recvAwaiter }
        else some s
    | _ => none
  | .recv r =>
    match s.control with
    | .reading c (a :: rest) =>
      match r, s.conns c, s.awaiters a with
      | .again, some conn, _ =>
        some { s with
          conns := update s.conns c (some { conn with readyToRecv := false })
          control := .events }
      -- fewer bytes than wanted end the reading
      | .bytes n, _, some w =>
        let control : Control := if n < w.bufferSize then .leaving c else .reading c rest
        resume { s with control := control } a n
      -- compared with the size, the -1 of a failed receive is more: reading goes on
      | .error, _, _ => resume { s with control := .reading c rest } a (-1)
      | _, _, _ => none
    | _ => none
  | .done =>
    match s.control with
    | .events => some { s with control := .top }
    | .wakeup [] => some { s with control := .top }
    | .reading _ [] => some { s with control := .events }
    | .leaving c =>
      match s.conns c with
      | none => none
      | some conn =>
        some { s with
          conns := update s.conns c (some { conn with readyToRecv := false })
          control := .events }
    | _ => none

/-- The event loop, before `run` is called. -/
def eventLoop (multiple : Bool) : System IoCtx Action :=
  ⟨⟨Links.alone _, [], fun _ => none, fun _ => none, .top⟩, step multiple⟩

end Rojcpp.Tinyasync
