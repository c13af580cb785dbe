import Rojcpp.Judge.SocketHolders

/-!
# The sockets of a judge client

The constructor of `Client` opens `connect_size` sockets and connects each to the judge server.  A
socket that could not be connected is closed and not registered with epoll; its number goes to the
socket manager all the same, from where `send` takes descriptors.  The kernel may return the number
again for the next socket, and then the manager keeps the one entry for both.

What `send` can be given afterwards is decided by the last attempt that had a number
(`handed_usable_iff`); numbers that the manager knew before are not in the new epoll set.  Where the
kernel returns the lowest number that is free, it is the last attempt of all
(`ClientSockets.Lowest.connected_iff`).
-/

namespace Rojcpp.Judge

open Rojcpp.Lib Function

/-! ### The constructor -/

/-- What a descriptor of the process is open on. -/
inductive OpenFile where
  | other
  | socket (connected : Bool)
  deriving DecidableEq, Repr

/-- The open descriptors, the epoll set of the client, the socket manager, and the fields
`sockfd_vec` and `runing`. -/
structure ClientSockets where
  files : ℕ → Option OpenFile
  epoll : ℕ → Bool
  sockets : SocketMap
  sockfdVec : List ℕ
  runing : Bool

/-- The kernel's answers in one turn of the loop: `socket` fails, or it returns a number and
`connect` succeeds or not. -/
inductive SocketCall where
  | failed
  | opened (fd : ℕ) (connects : Bool)
  deriving DecidableEq, Repr

/-- `close`, which also takes the descriptor out of the epoll set. -/
def ClientSockets.close (s : ClientSockets) (fd : ℕ) : ClientSockets :=
  { s with files := update s.files fd none, epoll := update s.epoll fd false }

/-- `Client::Connect`: whether the socket is connected; it is closed if not. -/
def ClientSockets.connect (s : ClientSockets) (fd : ℕ) (connects : Bool) : Bool × ClientSockets :=
  if connects = true then
    (true, { s with files := update s.files fd (some (.socket true)) })
  else
    (false, s.close fd)

/-- One turn of the loop, after `socket` has returned a number. -/
def ClientSockets.attempt (s : ClientSockets) (fd : ℕ) (connects : Bool) : ClientSockets :=
  let opened := { s with files := update s.files fd (some (.socket false)) }
  let (ok, s₁) := opened.connect fd connects
  let s₂ := if ok = true then { s₁ with epoll := update s₁.epoll fd true } else s₁
  { s₂ with sockets := s₂.sockets.insert fd, sockfdVec := s₂.sockfdVec ++ [fd] }

/-- The loop of the constructor, which returns when `socket` fails and starts the receiving thread
when it is done. -/
def ClientSockets.openSockets (s : ClientSockets) : List SocketCall → ClientSockets
  | [] => { s with runing := true }
  | .failed :: _ => s
  | .opened fd connects :: calls => (s.attempt fd connects).openSockets calls

/-- `Client::Client`, with a list of answers for the `connect_size` turns of its loop.  The first
argument is the descriptor of `epoll_create1`. -/
def ClientSockets.construct (s : ClientSockets) (epollfd : Option ℕ) (calls : List SocketCall) :
    Except String ClientSockets :=
  match epollfd with
  | none => .error "JUDGE_SERVER create epoll fail!"
  | some fd =>
    .ok <| { s with files := update s.files fd (some .other), epoll := fun _ => false }.openSockets
      calls

/-- What a descriptor for `send` should be: an open socket that is connected and registered. -/
def ClientSockets.Usable (s : ClientSockets) (fd : ℕ) : Prop :=
  s.files fd = some (.socket true) ∧ s.epoll fd = true

instance clientSocketsUsableDecidable (s : ClientSockets) (fd : ℕ) : Decidable (s.Usable fd) :=
  inferInstanceAs (Decidable (s.files fd = some (.socket true) ∧ s.epoll fd = true))

/-! ### What the manager hands out -/

/-- The calls of `Client::send`: a descriptor is taken, written to and given back. -/
def HolderAction.Sending : HolderAction → Prop
  | .get _ _ => True
  | .write _ _ => True
  | .unuse _ => True
  | _ => False

/-- The calls of `send`, by any number of threads, on a socket manager. -/
def sends (m : SocketMap) : System HolderState HolderAction :=
  ⟨⟨m, fun _ => .fresh, []⟩, holderStep⟩

/-- The manager can hand this descriptor to a `send`, after some calls of other ones. -/
def SocketMap.Handed (m : SocketMap) (fd : ℕ) : Prop :=
  ∃ s, (sends m).Reachable (fun _ a => a.Sending) s ∧ s.sockets.Gets fd

/-- Calls of `send` leave the set of known descriptors as it is. -/
theorem sends_known (m : SocketMap) {s : HolderState}
    (hs : (sends m).Reachable (fun _ a => a.Sending) s) (k : ℕ) :
    s.sockets k = none ↔ m k = none := by
  refine System.Reachable.invariant (fun s => s.sockets k = none ↔ m k = none) Iff.rfl ?_ hs
  intro s a s' hinv hsending hstep
  rw [← hinv]
  cases a with
  | get o fd =>
    simp only [sends, holderStep, Option.ite_none_right_eq_some, Option.some.injEq] at hstep
    obtain ⟨⟨-, hfree, -⟩, rfl⟩ := hstep
    show update s.sockets fd (some true) k = none ↔ s.sockets k = none
    by_cases hk : k = fd
    · rw [hk, update_self, hfree]
      exact iff_of_false (Option.some_ne_none _) (Option.some_ne_none _)
    · rw [update_of_ne hk]
  | unuse o =>
    simp only [sends, holderStep] at hstep
    split at hstep
    · rename_i fd hlive
      cases hstep
      show s.sockets.unuse fd k = none ↔ s.sockets k = none
      rw [SocketMap.unuse_apply]
      by_cases hk : k = fd ∧ s.sockets fd ≠ none
      · rw [if_pos hk, hk.1]
        exact iff_of_false (Option.some_ne_none _) hk.2
      · rw [if_neg hk]
    · cases hstep
  | write o bytes =>
    simp only [sends, holderStep] at hstep
    split at hstep
    · cases hstep
      exact Iff.rfl
    · cases hstep
  | insert fd => exact hsending.elim
  | getSpecifiedFd o fd => exact hsending.elim
  | remove fd => exact hsending.elim

/-- Sends can hold every descriptor below a given one, so that it is the next. -/
theorem sends_hold_below (m : SocketMap) (n : ℕ) :
    ∃ s, (sends m).Reachable (fun _ a => a.Sending) s ∧ (∀ k < n, s.sockets k ≠ some false) ∧
      (∀ k, n ≤ k → s.sockets k = m k) ∧ ∀ o, n ≤ o → s.raii o = .fresh := by
  induction n with
  | zero =>
    refine ⟨(sends m).start, .start, ?_, fun _ _ => rfl, fun _ _ => rfl⟩
    intro k hk
    exact absurd hk (Nat.not_lt_zero k)
  | succ n ih =>
    obtain ⟨s, hs, hbelow, hsame, hfresh⟩ := ih
    by_cases hfree : m n = some false
    · have hgets : s.sockets.Gets n := ⟨(hsame n (Nat.le_refl _)).trans hfree, hbelow⟩
      refine ⟨_, .step (a := .get n n) hs trivial
        (if_pos ⟨hfresh n (Nat.le_refl _), hgets⟩), ?_, ?_, ?_⟩
      · intro k hk
        show update s.sockets n (some true) k ≠ some false
        rcases Nat.lt_succ_iff_lt_or_eq.mp hk with hk | rfl
        · rw [update_of_ne (Nat.ne_of_lt hk)]
          exact hbelow k hk
        · rw [update_self]
          decide
      · intro k hk
        show update s.sockets n (some true) k = m k
        rw [update_of_ne (Nat.ne_of_gt (Nat.lt_of_succ_le hk))]
        exact hsame k (Nat.le_of_succ_le hk)
      · intro o ho
        show update s.raii n (.live n) o = .fresh
        rw [update_of_ne (Nat.ne_of_gt (Nat.lt_of_succ_le ho))]
        exact hfresh o (Nat.le_of_succ_le ho)
    · refine ⟨s, hs, ?_, fun k hk => hsame k (Nat.le_of_succ_le hk),
        fun o ho => hfresh o (Nat.le_of_succ_le ho)⟩
      intro k hk
      rcases Nat.lt_succ_iff_lt_or_eq.mp hk with hk | rfl
      · exact hbelow k hk
      · rw [hsame k (Nat.le_refl _)]
        exact hfree

/-- **A manager in which nothing is in use hands out exactly the descriptors it knows.** -/
theorem SocketMap.handed_iff {m : SocketMap} (hunused : ∀ k, m k ≠ some true) (fd : ℕ) :
    m.Handed fd ↔ m fd = some false := by
  constructor
  · intro h
    obtain ⟨s, hs, hgets, -⟩ := h
    have hknown : m fd ≠ none := fun hnone => by
      rw [(sends_known m hs fd).mpr hnone] at hgets
      cases hgets
    cases hfd : m fd with
    | none => exact absurd hfd hknown
    | some b =>
      cases b with
      | true => exact absurd hfd (hunused fd)
      | false => rfl
  · intro h
    obtain ⟨s, hs, hbelow, hsame, -⟩ := sends_hold_below m fd
    exact ⟨s, hs, (hsame fd (Nat.le_refl _)).trans h, hbelow⟩

/-! ### What a turn of the loop does -/

section
variable (s : ClientSockets) (fd : ℕ) (connects : Bool)

@[simp] theorem ClientSockets.attempt_sockets :
    (s.attempt fd connects).sockets = s.sockets.insert fd := by
  cases connects <;> rfl

/-- The last thing a turn does to its own descriptor is to connect it or to close it. -/
theorem ClientSockets.attempt_files_self :
    (s.attempt fd connects).files fd = if connects = true then some (.socket true) else none := by
  cases connects with
  | false => exact update_self _ _ _
  | true => exact update_self _ _ _

theorem ClientSockets.attempt_epoll_self : (s.attempt fd connects).epoll fd = connects := by
  cases connects with
  | false => exact update_self _ _ _
  | true => exact update_self _ _ _

theorem ClientSockets.attempt_files_of_ne {k : ℕ} (hk : k ≠ fd) :
    (s.attempt fd connects).files k = s.files k := by
  cases connects with
  | false => exact (update_of_ne hk _ _).trans (update_of_ne hk _ _)
  | true => exact (update_of_ne hk _ _).trans (update_of_ne hk _ _)

theorem ClientSockets.attempt_epoll_of_ne {k : ℕ} (hk : k ≠ fd) :
    (s.attempt fd connects).epoll k = s.epoll k := by
  cases connects with
  | false => exact update_of_ne hk _ _
  | true => exact update_of_ne hk _ _

/-- **A descriptor is usable after its own turn exactly when that turn connected it**, whatever was
open under its number before. -/
theorem ClientSockets.attempt_usable_self :
    (s.attempt fd connects).Usable fd ↔ connects = true := by
  rw [Usable, attempt_files_self, attempt_epoll_self]
  cases connects with
  | false => exact iff_of_false (fun h => Bool.noConfusion h.2) Bool.false_ne_true
  | true => exact iff_of_true ⟨if_pos rfl, rfl⟩ rfl

theorem ClientSockets.attempt_usable_of_ne {k : ℕ} (hk : k ≠ fd) :
    (s.attempt fd connects).Usable k ↔ s.Usable k := by
  rw [Usable, attempt_files_of_ne s fd connects hk, attempt_epoll_of_ne s fd connects hk]
  rfl

end

/-! ### The attempts of a run -/

/-- The attempts that are made: those before `socket` fails. -/
def attemptsMade : List SocketCall → List (ℕ × Bool)
  | [] => []
  | .failed :: _ => []
  | .opened fd connects :: calls => (fd, connects) :: attemptsMade calls

/-- Whether the last attempt that had this number connected; `none` when no attempt had it. -/
def lastConnect (attempts : List (ℕ × Bool)) (fd : ℕ) : Option Bool :=
  (attempts.filter (·.1 = fd)).getLast?.map (·.2)

theorem lastConnect_append (seen : List (ℕ × Bool)) (fd k : ℕ) (connects : Bool) :
    lastConnect (seen ++ [(fd, connects)]) k =
      if k = fd then some connects else lastConnect seen k := by
  by_cases hk : k = fd
  · simp [lastConnect, hk]
  · simp [lastConnect, hk, Ne.symm hk]

theorem lastConnect_cons (attempts : List (ℕ × Bool)) (fd k : ℕ) (connects : Bool) :
    lastConnect ((fd, connects) :: attempts) k =
      (lastConnect attempts k).or (if k = fd then some connects else none) := by
  by_cases hk : k = fd
  · subst hk
    simp only [lastConnect, List.filter_cons, decide_true, if_true, List.getLast?_cons]
    cases ((attempts.filter (·.1 = k)).getLast?) with
    | none => rfl
    | some a => rfl
  · simp [lastConnect, hk, Ne.symm hk]

/-- **The loop invariant**, for a manager that knew the descriptors of `m`: it knows these and the
numbers of the attempts so far, none is in use, and the usable ones are those whose last attempt
connected. -/
structure AttemptsDone (m : SocketMap) (seen : List (ℕ × Bool)) (s : ClientSockets) : Prop where
  known : ∀ k, s.sockets k = none ↔ m k = none ∧ lastConnect seen k = none
  unused : ∀ k, s.sockets k ≠ some true
  usable : ∀ k, s.Usable k ↔ lastConnect seen k = some true

theorem AttemptsDone.attempt {m : SocketMap} {seen : List (ℕ × Bool)} {s : ClientSockets}
    (h : AttemptsDone m seen s) (fd : ℕ) (connects : Bool) :
    AttemptsDone m (seen ++ [(fd, connects)]) (s.attempt fd connects) where
  known := by
    intro k
    rw [ClientSockets.attempt_sockets, SocketMap.insert_apply, lastConnect_append]
    by_cases hk : k = fd
    · subst hk
      rw [if_pos rfl]
      refine iff_of_false ?_ fun hnone => Option.some_ne_none _ hnone.2
      split
      · exact Option.some_ne_none _
      · rename_i hold
        exact fun hnone => hold ⟨rfl, hnone⟩
    · rw [if_neg hk, if_neg fun hboth => hk hboth.1]
      exact h.known k
  unused := by
    intro k
    rw [ClientSockets.attempt_sockets, SocketMap.insert_apply]
    split
    · decide
    · exact h.unused k
  usable := by
    intro k
    rw [lastConnect_append]
    by_cases hk : k = fd
    · rw [if_pos hk, Option.some.injEq, hk]
      exact s.attempt_usable_self fd connects
    · rw [if_neg hk, s.attempt_usable_of_ne fd connects hk]
      exact h.usable k

/-- **The whole loop.** -/
theorem AttemptsDone.openSockets {m : SocketMap} (calls : List SocketCall) :
    ∀ {seen : List (ℕ × Bool)} {s : ClientSockets}, AttemptsDone m seen s →
      AttemptsDone m (seen ++ attemptsMade calls) (s.openSockets calls) := by
  induction calls with
  | nil =>
    intro seen s h
    rw [attemptsMade, List.append_nil]
    exact ⟨h.known, h.unused, h.usable⟩
  | cons call calls ih =>
    intro seen s h
    cases call with
    | failed =>
      rw [attemptsMade, List.append_nil]
      exact h
    | opened fd connects =>
      have hrest := ih (h.attempt fd connects)
      rwa [List.append_assoc] at hrest

/-- The client that was constructed has made its attempts. -/
theorem attemptsDone_construct {s c : ClientSockets} {epollfd : Option ℕ} {calls : List SocketCall}
    (hunused : ∀ k, s.sockets k ≠ some true) (h : s.construct epollfd calls = .ok c) :
    AttemptsDone s.sockets (attemptsMade calls) c := by
  cases epollfd with
  | none => cases h
  | some fd =>
    cases h
    show AttemptsDone s.sockets ([] ++ attemptsMade calls) _
    refine AttemptsDone.openSockets calls ⟨?_, hunused, ?_⟩
    · exact fun k => (and_iff_left rfl).symm
    · -- the epoll set is new
      intro k
      exact iff_of_false (fun husable => Bool.false_ne_true husable.2)
        (Option.some_ne_none true).symm

/-! ### What `send` is given -/

/-- **Every descriptor that `send` can be given is an open, connected and registered socket exactly
when the last attempt connected for every number the manager knows**, be it from an attempt or from
before. -/
theorem handed_usable_iff (s c : ClientSockets) (epollfd : Option ℕ) (calls : List SocketCall)
    (hunused : ∀ k, s.sockets k ≠ some true) (h : s.construct epollfd calls = .ok c) :
    (∀ fd, c.sockets.Handed fd → c.Usable fd) ↔
      ∀ fd, s.sockets fd ≠ none ∨ lastConnect (attemptsMade calls) fd ≠ none →
        lastConnect (attemptsMade calls) fd = some true := by
  have hdone := attemptsDone_construct hunused h
  have hhanded : ∀ fd, c.sockets.Handed fd ↔
      s.sockets fd ≠ none ∨ lastConnect (attemptsMade calls) fd ≠ none := by
    intro fd
    rw [SocketMap.handed_iff hdone.unused, ← Decidable.not_and_iff_not_or_not, ← hdone.known fd]
    cases hfd : c.sockets fd with
    | none => exact iff_of_false (Option.some_ne_none false).symm fun hnot => hnot rfl
    | some b =>
      cases b with
      | false => exact iff_of_true rfl (Option.some_ne_none false)
      | true => exact absurd hfd (hdone.unused fd)
  refine forall_congr' fun fd => ?_
  rw [hhanded fd, hdone.usable fd]

/-- A process with descriptors 0 to 3 open and no socket in its manager. -/
def beforeClient : ClientSockets :=
  { files := fun k => if k < 4 then some .other else none
    epoll := fun _ => false
    sockets := fun _ => none
    sockfdVec := []
    runing := false }

theorem beforeClient_unused (k : ℕ) : beforeClient.sockets k ≠ some true :=
  (Option.some_ne_none true).symm

/-- A first attempt that fails, and a second one with the same number that does not. -/
theorem handed_usable_iff_reused :
    ∃ c, beforeClient.construct (some 4) [.opened 5 false, .opened 5 true] = .ok c ∧
      ∀ fd, c.sockets.Handed fd → c.Usable fd := by
  refine ⟨_, rfl, (handed_usable_iff beforeClient _ (some 4) [.opened 5 false, .opened 5 true]
    beforeClient_unused rfl).mpr fun fd hfd => ?_⟩
  obtain hfd | hfd := hfd
  · exact absurd rfl hfd
  · show lastConnect [(5, false), (5, true)] fd = some true
    have hlast := lastConnect_append [(5, false)] 5 fd true
    by_cases h : fd = 5
    · exact hlast.trans (if_pos h)
    · refine absurd ((hlast.trans (if_neg h)).trans ?_) hfd
      exact (lastConnect_append [] 5 fd false).trans (if_neg h)

/-- The second connection is refused: `send` can be given its number, which is closed. -/
theorem refused_socket_handed :
    ∃ c, beforeClient.construct (some 4) [.opened 5 true, .opened 6 false] = .ok c ∧
      c.sockets.Handed 6 ∧ c.files 6 = none ∧ ¬c.Usable 6 := by
  refine ⟨_, rfl, ?_, by decide, by decide⟩
  have hdone : AttemptsDone beforeClient.sockets [(5, true), (6, false)] _ :=
    attemptsDone_construct beforeClient_unused
      (show beforeClient.construct (some 4) [.opened 5 true, .opened 6 false] = .ok _ from rfl)
  exact (SocketMap.handed_iff hdone.unused 6).mpr (by decide)

/-- The kernel returns the lowest number that is free. -/
def ClientSockets.Lowest (s : ClientSockets) : List SocketCall → Prop
  | [] => True
  | .failed :: _ => True
  | .opened fd connects :: calls =>
    s.files fd = none ∧ (∀ k < fd, s.files k ≠ none) ∧ (s.attempt fd connects).Lowest calls

/-- After a failed attempt its number is the lowest that is free, so the next attempt has it. -/
theorem ClientSockets.Lowest.same_number {s : ClientSockets} {fd : ℕ} {calls : List SocketCall}
    (h : s.Lowest (.opened fd false :: calls)) :
    ∀ a ∈ (attemptsMade calls).head?, a.1 = fd := by
  intro a ha
  obtain ⟨-, hbelow, hrest⟩ := h
  match calls, hrest, ha with
  | .opened fd' connects :: calls, hrest, ha =>
    obtain ⟨hfree', hbelow', -⟩ := hrest
    obtain rfl : (fd', connects) = a := Option.some.inj ha
    show fd' = fd
    rcases Nat.lt_trichotomy fd' fd with hlt | heq | hgt
    · rw [s.attempt_files_of_ne fd false (Nat.ne_of_lt hlt)] at hfree'
      exact absurd hfree' (hbelow fd' hlt)
    · exact heq
    · exact absurd (s.attempt_files_self fd false) (hbelow' fd hgt)

theorem lastConnect_getLast {attempts : List (ℕ × Bool)} {a : ℕ × Bool}
    (ha : a ∈ attempts.getLast?) : lastConnect attempts a.1 = some a.2 := by
  obtain ⟨init, rfl⟩ := List.getLast?_eq_some_iff.mp (Option.mem_def.mp ha)
  rw [show a = (a.1, a.2) from rfl, lastConnect_append, if_pos rfl]

theorem ClientSockets.Lowest.lastConnect_ne (calls : List SocketCall) : ∀ {s : ClientSockets},
    s.Lowest calls → (∀ a ∈ (attemptsMade calls).getLast?, a.2 = true) →
      ∀ fd, lastConnect (attemptsMade calls) fd ≠ some false := by
  induction calls with
  | nil =>
    intro s _ _ fd h
    cases h
  | cons call calls ih =>
    intro s hlow hend
    cases call with
    | failed =>
      intro fd h
      cases h
    | opened fd connects =>
      have hrest := ih hlow.2.2
      intro k hfailed
      rw [attemptsMade, lastConnect_cons] at hfailed
      cases hlast : lastConnect (attemptsMade calls) k with
      | some c =>
        have hne : lastConnect (attemptsMade calls) k ≠ some false := by
          refine hrest (fun a ha => hend a ?_) k
          rw [attemptsMade, List.getLast?_cons, Option.mem_def.mp ha]
          rfl
        rw [hlast, Option.some_or] at hfailed
        exact hne (hlast.trans hfailed)
      | none =>
        -- the failed attempt was the last one with its number, so it was the last of all
        rw [hlast, Option.none_or, Option.ite_none_right_eq_some,
          Option.some.injEq] at hfailed
        obtain ⟨rfl, rfl⟩ := hfailed
        cases hmade : attemptsMade calls with
        | nil =>
          rw [attemptsMade, hmade] at hend
          exact Bool.false_ne_true (hend _ rfl)
        | cons a as =>
          have hsame := hlow.same_number a (by rw [hmade]; rfl)
          rw [hmade, ← hsame, show a = (a.1, a.2) from rfl, lastConnect_cons, if_pos rfl,
            Option.or_eq_none_iff] at hlast
          cases hlast.2

/-- **Where the kernel returns the lowest free number, the last attempt connected for every number
exactly when the last attempt of all did.** -/
theorem ClientSockets.Lowest.connected_iff {s : ClientSockets} {calls : List SocketCall}
    (h : s.Lowest calls) :
    (∀ fd, lastConnect (attemptsMade calls) fd ≠ none →
        lastConnect (attemptsMade calls) fd = some true) ↔
      ∀ a ∈ (attemptsMade calls).getLast?, a.2 = true := by
  constructor
  · intro hall a ha
    have hlast := lastConnect_getLast ha
    have hconnected := hall a.1 (by rw [hlast]; exact Option.some_ne_none _)
    rw [hlast] at hconnected
    exact Option.some.inj hconnected
  · intro hend fd hfd
    have hne := h.lastConnect_ne calls hend fd
    cases hlast : lastConnect (attemptsMade calls) fd with
    | none => exact absurd hlast hfd
    | some b =>
      cases b with
      | false => exact absurd hlast hne
      | true => rfl

end Rojcpp.Judge
