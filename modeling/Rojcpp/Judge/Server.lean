import Rojcpp.Judge.Result
import Rojcpp.Judge.SocketManager
import Rojcpp.Lib.System

/-!
# The judge server and its workers

`Server::run` and the worker threads as one system.  The main thread scans its descriptor set and
either accepts a connection, receives a submission, or closes a connection whose peer is gone; the
workers take jobs from the queue and answer through `write_message`, which takes the descriptor
from the socket manager, writes, and gives it back.  Calls that run under a mutex or inside the
kernel are single steps, and everything between two of them may be interleaved with the other
threads.  A call that reports failure to a loop is a step that changes nothing.

The kernel hands out the lowest free descriptor, to `accept` as to the files and pipes the workers
open.  A job carries its descriptor only; the connection it came from is kept beside it to state
what should happen.
-/

namespace Rojcpp.Judge

open Rojcpp.Lib Function

/-- What a descriptor refers to: nothing, a connection of the server, or some other file. -/
inductive Slot where
  | free
  | conn (id : ℕ)
  | other
  deriving DecidableEq, Repr

/-- A submission in the queue: its descriptor and message, and the connection it came from. -/
structure Job where
  fd : ℕ
  conn : ℕ
  msg : MessageSendJudge
  deriving DecidableEq, Repr

/-- What the main thread is doing: scanning the descriptors, or standing behind `accept`, in the
loop around `remove`, or before `close`. -/
inductive MainPhase where
  | scanning
  | accepted (fd : ℕ)
  | removing (fd : ℕ)
  | closing (fd : ℕ)
  deriving DecidableEq, Repr

/-- What a worker is doing: waiting, working on a job, or holding the descriptor inside
`write_message`. -/
inductive Worker where
  | idle
  | running (job : Job)
  | holding (job : Job)
  deriving DecidableEq, Repr

/-- Some bytes of a message went to what the job's descriptor referred to. -/
structure Sent where
  job : Job
  target : Slot
  deriving DecidableEq, Repr

/-- The server, its workers, and the kernel's descriptor table. -/
structure ServerState where
  slots : ℕ → Slot
  nextConn : ℕ
  readfds : ℕ → Bool
  sockets : SocketMap
  main : MainPhase
  queue : List Job
  workers : ℕ → Worker
  sent : List Sent

/-- The steps of the threads; `w` numbers the workers. -/
inductive ServerAction where
  | accept (fd : ℕ)
  | insert
  | receive (fd : ℕ) (msg : MessageSendJudge)
  | disconnect (fd : ℕ)
  | remove
  | close
  | dequeue (w : ℕ)
  | acquire (w : ℕ)
  | send (w : ℕ)
  | release (w : ℕ)
  | finish (w : ℕ)
  | openFile (fd : ℕ)
  | closeFile (fd : ℕ)
  deriving DecidableEq, Repr

/-- The descriptor the kernel hands out next. -/
def LowestFree (slots : ℕ → Slot) (fd : ℕ) : Prop := slots fd = .free ∧ ∀ k < fd, slots k ≠ .free

instance (slots : ℕ → Slot) (fd : ℕ) : Decidable (LowestFree slots fd) :=
  inferInstanceAs (Decidable (slots fd = .free ∧ ∀ k < fd, slots k ≠ .free))

/-- The listening socket of the server. -/
def listenFd : ℕ := 3

/-- The server before its first `select`: three standard files and the listening socket. -/
def ServerState.start : ServerState where
  slots fd := if fd ≤ listenFd then .other else .free
  nextConn := 0
  readfds _ := false
  sockets _ := none
  main := .scanning
  queue := []
  workers _ := .idle
  sent := []

/-- One step of a server with `size` workers. -/
def serverStep (size : ℕ) (s : ServerState) : ServerAction → Option ServerState
  | .accept fd =>
    if s.main = .scanning ∧ LowestFree s.slots fd then
      some { s with
        slots := update s.slots fd (.conn s.nextConn)
        nextConn := s.nextConn + 1
        readfds := update s.readfds fd true
        main := .accepted fd }
    else none
  | .insert =>
    match s.main with
    | .accepted fd => some { s with sockets := s.sockets.insert fd, main := .scanning }
    | _ => none
  | .receive fd msg =>
    match s.slots fd with
    | .conn c =>
      if s.main = .scanning ∧ s.readfds fd then some { s with queue := s.queue ++ [⟨fd, c, msg⟩] }
      else none
    | _ => none
  | .disconnect fd =>
    if s.main = .scanning ∧ s.readfds fd then some { s with main := .removing fd } else none
  | .remove =>
    match s.main with
    | .removing fd =>
      let r := s.sockets.remove fd
      some { s with sockets := r.2, main := if r.1 then .closing fd else .removing fd }
    | _ => none
  | .close =>
    match s.main with
    | .closing fd =>
      some { s with
        slots := update s.slots fd .free
        readfds := update s.readfds fd false
        main := .scanning }
    | _ => none
  | .dequeue w =>
    match s.queue with
    | job :: queue =>
      if w < size ∧ s.workers w = .idle then
        some { s with queue := queue, workers := update s.workers w (.running job) }
      else none
    | [] => none
  | .acquire w =>
    match s.workers w with
    | .running job =>
      let r := s.sockets.getSpecifiedFd job.fd
      some { s with
        sockets := r.2
        workers := if r.1 then update s.workers w (.holding job) else s.workers }
    | _ => none
  | .send w =>
    match s.workers w with
    | .holding job => some { s with sent := s.sent ++ [⟨job, s.slots job.fd⟩] }
    | _ => none
  | .release w =>
    match s.workers w with
    | .holding job =>
      some { s with
        sockets := s.sockets.unuse job.fd
        workers := update s.workers w (.running job) }
    | _ => none
  | .finish w =>
    match s.workers w with
    | .running _ => some { s with workers := update s.workers w .idle }
    | _ => none
  | .openFile fd =>
    if LowestFree s.slots fd then some { s with slots := update s.slots fd .other } else none
  | .closeFile fd =>
    if s.slots fd = .other ∧ listenFd < fd then
      some { s with slots := update s.slots fd .free }
    else none

/-- The judge server with `size` workers. -/
def server (size : ℕ) : System ServerState ServerAction := ⟨.start, serverStep size⟩

/-- A job that is queued, or on which a worker is working. -/
def Pending (s : ServerState) (j : Job) : Prop :=
  j ∈ s.queue ∨ ∃ w, s.workers w = .running j ∨ s.workers w = .holding j

end Rojcpp.Judge
