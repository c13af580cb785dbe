import Mathlib.Data.List.Induction
import Rojcpp.Judge.SocketManager
import Rojcpp.Lib.System

/-!
# Who holds a descriptor

The threads that share the socket manager, with `socketManagerRAII` objects of both kinds: those
that take any unused descriptor and those that take a given one.  Every member function runs under
the mutex and is one step; a call that fails is repeated by its caller and changes nothing.  The
destructor gives the descriptor back once.  While an object lives its thread may write to the
descriptor, in as many pieces as the kernel wants.

Who holds what is only recorded in the flags of the map, which every operation of every thread
touches.  `HolderInv` says that the flags are right.
-/

namespace Rojcpp.Judge

open Rojcpp.Lib Function

/-! ### Objects and steps -/

/-- The life of a `socketManagerRAII`: not constructed yet, holding a descriptor, destroyed. -/
inductive Raii where
  | fresh
  | live (fd : ℕ)
  | dead
  deriving DecidableEq, Repr

/-- A piece of a frame: who wrote it, and where. -/
structure Piece where
  holder : ℕ
  fd : ℕ
  bytes : List UInt8
  deriving DecidableEq, Repr

/-- The map, the objects by their numbers, and all that was written. -/
structure HolderState where
  sockets : SocketMap
  raii : ℕ → Raii
  written : List Piece

/-- The steps: the calls of the socket manager, and a piece that is written by a holder. -/
inductive HolderAction where
  | insert (fd : ℕ)
  | get (o fd : ℕ)
  | getSpecifiedFd (o fd : ℕ)
  | remove (fd : ℕ)
  | unuse (o : ℕ)
  | write (o : ℕ) (bytes : List UInt8)
  deriving DecidableEq, Repr

/-- `socketManager::get` finds this descriptor: the first in the order of the map that is not in
use. -/
def SocketMap.Gets (m : SocketMap) (fd : ℕ) : Prop :=
  m fd = some false ∧ ∀ k < fd, m k ≠ some false

instance socketMapGetsDecidable (m : SocketMap) (fd : ℕ) : Decidable (m.Gets fd) :=
  inferInstanceAs (Decidable (m fd = some false ∧ ∀ k < fd, m k ≠ some false))

/-- One step. -/
def holderStep (s : HolderState) : HolderAction → Option HolderState
  | .insert fd => some { s with sockets := s.sockets.insert fd }
  | .get o fd =>
    if s.raii o = .fresh ∧ s.sockets.Gets fd then
      some { s with
        sockets := update s.sockets fd (some true)
        raii := update s.raii o (.live fd) }
    else none
  | .getSpecifiedFd o fd =>
    if s.raii o = .fresh then
      let r := s.sockets.getSpecifiedFd fd
      some { s with
        sockets := r.2
        raii := if r.1 = true then update s.raii o (.live fd) else s.raii }
    else none
  | .remove fd => some { s with sockets := (s.sockets.remove fd).2 }
  | .unuse o =>
    match s.raii o with
    | .live fd =>
      some { s with sockets := s.sockets.unuse fd, raii := update s.raii o .dead }
    | _ => none
  | .write o bytes =>
    match s.raii o with
    | .live fd => some { s with written := s.written ++ [⟨o, fd, bytes⟩] }
    | _ => none

/-- The socket manager before any call. -/
def socketHolders : System HolderState HolderAction :=
  ⟨⟨fun _ => none, fun _ => .fresh, []⟩, holderStep⟩

/-! ### What a step does -/

/-- The effect of a step, case by case. -/
inductive HolderEffect (s : HolderState) : HolderState → Prop
  | insert (fd : ℕ) : HolderEffect s { s with sockets := s.sockets.insert fd }
  | take (o fd : ℕ) (hfresh : s.raii o = .fresh) (hunused : s.sockets fd = some false) :
      HolderEffect s { s with
        sockets := update s.sockets fd (some true)
        raii := update s.raii o (.live fd) }
  | remove (fd : ℕ) (hunused : s.sockets fd = some false) :
      HolderEffect s { s with sockets := update s.sockets fd none }
  | unuse (o fd : ℕ) (hlive : s.raii o = .live fd) :
      HolderEffect s { s with sockets := s.sockets.unuse fd, raii := update s.raii o .dead }
  | write (o fd : ℕ) (bytes : List UInt8) (hlive : s.raii o = .live fd) :
      HolderEffect s { s with written := s.written ++ [⟨o, fd, bytes⟩] }
  | same : HolderEffect s s

theorem holderEffect_of_step {s s' : HolderState} {a : HolderAction}
    (h : holderStep s a = some s') : HolderEffect s s' := by
  cases a with
  | insert fd =>
    cases h
    exact .insert fd
  | get o fd =>
    simp only [holderStep, Option.ite_none_right_eq_some, Option.some.injEq] at h
    obtain ⟨⟨hfresh, hgets⟩, rfl⟩ := h
    exact .take o fd hfresh hgets.1
  | getSpecifiedFd o fd =>
    simp only [holderStep, Option.ite_none_right_eq_some, Option.some.injEq] at h
    obtain ⟨hfresh, rfl⟩ := h
    cases s.sockets.getSpecifiedFd_cases fd with
    | inl htaken =>
      rw [htaken.2]
      exact .take o fd hfresh htaken.1
    | inr hfailed =>
      rw [hfailed]
      exact .same
  | remove fd =>
    cases h
    cases s.sockets.remove_cases fd with
    | inl hremoved =>
      rw [hremoved.2]
      exact .remove fd hremoved.1
    | inr hfailed =>
      rw [hfailed]
      exact .same
  | unuse o =>
    simp only [holderStep] at h
    split at h
    · rename_i fd hlive
      cases h
      exact .unuse o fd hlive
    · cases h
  | write o bytes =>
    simp only [holderStep] at h
    split at h
    · rename_i fd hlive
      cases h
      exact .write o fd bytes hlive
    · cases h

/-! ### The invariant -/

/-- No piece by somebody else stands between two pieces of one frame on the same descriptor. -/
def NotInterleaved (written : List Piece) : Prop :=
  ∀ before p between q after, written = before ++ p :: (between ++ q :: after) →
    p.holder = q.holder → ∀ r ∈ between, r.fd = p.fd → r.holder = p.holder

/-- The invariant: a live object's descriptor is flagged, nobody else holds it, whoever has written
was constructed and still has that descriptor if it lives, a live writer was not interrupted, and
no frame was. -/
structure HolderInv (s : HolderState) : Prop where
  flagged : ∀ o fd, s.raii o = .live fd → s.sockets fd = some true
  alone : ∀ o o' fd, s.raii o = .live fd → s.raii o' = .live fd → o = o'
  writer : ∀ p ∈ s.written, s.raii p.holder = .live p.fd ∨ s.raii p.holder = .dead
  tail : ∀ before p after, s.written = before ++ p :: after → s.raii p.holder = .live p.fd →
    ∀ r ∈ after, r.fd = p.fd → r.holder = p.holder
  frames : NotInterleaved s.written

theorem holderInv_start : HolderInv socketHolders.start where
  flagged := by
    intro o fd h
    cases h
  alone := by
    intro o o' fd h
    cases h
  writer := by
    intro p hp
    cases hp
  tail := by
    intro before p after h
    exact absurd h (by simp [socketHolders])
  frames := by
    intro before p between q after h
    exact absurd h (by simp [socketHolders])

section
variable {s s' : HolderState}

/-- A live object lived before on the same descriptor, or has just taken one that was not in
use. -/
theorem HolderEffect.live (h : HolderEffect s s') {o fd : ℕ} (ho : s'.raii o = .live fd) :
    s.raii o = .live fd ∨
      (s.raii o = .fresh ∧ s.sockets fd = some false ∧ s'.sockets fd = some true ∧
        s'.written = s.written ∧ ∀ o', s'.raii o' = .live fd → o' = o ∨ s.raii o' = .live fd) := by
  cases h with
  | take k fd' hfresh hunused =>
    have hlive : update s.raii k (.live fd') o = .live fd := ho
    by_cases hk : o = k
    · rw [hk, update_self] at hlive
      cases hlive
      refine .inr ⟨by rw [hk]; exact hfresh, hunused, update_self _ _ _, rfl, ?_⟩
      intro o' ho'
      by_cases hne : o' = k
      · exact .inl (hne.trans hk.symm)
      · have hold : update s.raii k (.live fd) o' = .live fd := ho'
        rw [update_of_ne hne] at hold
        exact .inr hold
    · rw [update_of_ne hk] at hlive
      exact .inl hlive
  | unuse k fd' hlive' =>
    have hlive : update s.raii k .dead o = .live fd := ho
    by_cases hk : o = k
    · rw [hk, update_self] at hlive
      cases hlive
    · rw [update_of_ne hk] at hlive
      exact .inl hlive
  | _ => exact .inl ho

/-- A flag stays until the object that holds the descriptor is destroyed. -/
theorem HolderEffect.flag (h : HolderEffect s s') {fd : ℕ} (hu : s.sockets fd = some true) :
    s'.sockets fd = some true ∨ ∃ o, s.raii o = .live fd ∧ s'.raii o = .dead := by
  cases h with
  | insert k =>
    refine .inl ?_
    show s.sockets.insert k fd = some true
    rw [SocketMap.insert_apply, if_neg, hu]
    intro hk
    rw [hk.1, hk.2] at hu
    cases hu
  | take k fd' hfresh hunused =>
    have hne : fd ≠ fd' := by
      intro heq
      rw [heq, hunused] at hu
      cases hu
    exact .inl ((update_of_ne hne _ _).trans hu)
  | remove k hunused =>
    have hne : fd ≠ k := by
      intro heq
      rw [heq, hunused] at hu
      cases hu
    exact .inl ((update_of_ne hne _ _).trans hu)
  | unuse o k hlive =>
    by_cases hk : fd = k
    · exact .inr ⟨o, by rw [hk]; exact hlive, update_self _ _ _⟩
    · refine .inl ?_
      show s.sockets.unuse k fd = some true
      rw [SocketMap.unuse_apply, if_neg (fun h => hk h.1), hu]
  | write o k bytes hlive => exact .inl hu
  | same => exact .inl hu

/-- A writer keeps its descriptor or is destroyed. -/
theorem HolderEffect.writer (h : HolderEffect s s') {o fd : ℕ}
    (ho : s.raii o = .live fd ∨ s.raii o = .dead) : s'.raii o = .live fd ∨ s'.raii o = .dead := by
  cases h with
  | take k fd' hfresh hunused =>
    have hne : o ≠ k := by
      intro heq
      rw [heq, hfresh] at ho
      cases ho with
      | inl ho => cases ho
      | inr ho => cases ho
    show update s.raii k (.live fd') o = _ ∨ update s.raii k (.live fd') o = _
    rw [update_of_ne hne]
    exact ho
  | unuse k fd' hlive =>
    by_cases hk : o = k
    · refine .inr ?_
      show update s.raii k .dead o = _
      rw [hk, update_self]
    · show update s.raii k .dead o = _ ∨ update s.raii k .dead o = _
      rw [update_of_ne hk]
      exact ho
  | _ => exact ho

/-- Only a live object writes, and writing changes nothing else. -/
theorem HolderEffect.written (h : HolderEffect s s') :
    s'.written = s.written ∨
      ∃ p : Piece, s.raii p.holder = .live p.fd ∧ s'.raii = s.raii ∧
        s'.written = s.written ++ [p] := by
  cases h with
  | write o fd bytes hlive => exact .inr ⟨⟨o, fd, bytes⟩, hlive, rfl, rfl⟩
  | _ => exact .inl rfl

end

/-- A list with one more element ends in it, or its parts are those of the list and it. -/
theorem append_singleton_cases {α : Type} {l before after : List α} {x p : α}
    (h : l ++ [x] = before ++ p :: after) :
    (l = before ∧ x = p ∧ after = []) ∨
      ∃ after', l = before ++ p :: after' ∧ after = after' ++ [x] := by
  cases after using List.reverseRecOn with
  | nil =>
    have hcat := List.append_inj' h rfl
    exact .inl ⟨hcat.1, List.singleton_inj.mp hcat.2, rfl⟩
  | append_singleton after' y =>
    have hshape : l ++ [x] = (before ++ p :: after') ++ [y] := by
      rw [h, List.append_assoc, List.cons_append]
    have hcat := List.append_inj' hshape rfl
    exact .inr ⟨after', hcat.1, by rw [List.singleton_inj.mp hcat.2]⟩

/-- A descriptor that is held is in use. -/
theorem HolderInv.not_unused {s : HolderState} (hs : HolderInv s) {o fd : ℕ}
    (ho : s.raii o = .live fd) : s.sockets fd ≠ some false := by
  rw [hs.flagged o fd ho]
  decide

/-- An object that is not constructed yet has not written. -/
theorem HolderInv.written_not_fresh {s : HolderState} (hs : HolderInv s) {p : Piece}
    (hp : p ∈ s.written) : s.raii p.holder ≠ .fresh := by
  intro hfresh
  have hwriter := hs.writer p hp
  rw [hfresh] at hwriter
  cases hwriter with
  | inl hlive => cases hlive
  | inr hdead => cases hdead

/-- **One step keeps the invariant.** -/
theorem holderInv_step {s s' : HolderState} (hs : HolderInv s) (h : HolderEffect s s') :
    HolderInv s' where
  flagged := by
    intro o fd ho
    cases h.live ho with
    | inl hold =>
      cases h.flag (hs.flagged o fd hold) with
      | inl hflag => exact hflag
      | inr hdead =>
        obtain ⟨k, hk, hdead⟩ := hdead
        rw [hs.alone k o fd hk hold, ho] at hdead
        cases hdead
    | inr hnew => exact hnew.2.2.1
  alone := by
    intro o o' fd ho ho'
    cases h.live ho with
    | inl hold =>
      cases h.live ho' with
      | inl hold' => exact hs.alone o o' fd hold hold'
      | inr hnew' => exact absurd hnew'.2.1 (hs.not_unused hold)
    | inr hnew =>
      cases hnew.2.2.2.2 o' ho' with
      | inl heq => exact heq.symm
      | inr hold' => exact absurd hnew.2.1 (hs.not_unused hold')
  writer := by
    intro p hp
    cases h.written with
    | inl hsame =>
      rw [hsame] at hp
      exact h.writer (hs.writer p hp)
    | inr hwrote =>
      obtain ⟨q, hq, hraii, hwritten⟩ := hwrote
      rw [hwritten] at hp
      cases List.mem_append.mp hp with
      | inl hp => exact h.writer (hs.writer p hp)
      | inr hp =>
        rw [List.mem_singleton.mp hp, hraii]
        exact .inl hq
  tail := by
    intro before p after hsplit hlive r hr hfd
    cases h.written with
    | inl hsame =>
      rw [hsame] at hsplit
      cases h.live hlive with
      | inl hold => exact hs.tail before p after hsplit hold r hr hfd
      | inr hnew =>
        -- an object that was just constructed has not written yet
        exact absurd hnew.1 (hs.written_not_fresh (by rw [hsplit]; simp))
    | inr hwrote =>
      obtain ⟨q, hq, hraii, hwritten⟩ := hwrote
      rw [hwritten] at hsplit
      rw [hraii] at hlive
      cases append_singleton_cases hsplit with
      | inl hlast =>
        rw [hlast.2.2] at hr
        exact absurd hr (by simp)
      | inr hbefore =>
        obtain ⟨after', hsplit', rfl⟩ := hbefore
        cases List.mem_append.mp hr with
        | inl hr => exact hs.tail before p after' hsplit' hlive r hr hfd
        | inr hr =>
          rw [List.mem_singleton.mp hr] at hfd ⊢
          exact hs.alone q.holder p.holder p.fd (by rw [← hfd]; exact hq) hlive
  frames := by
    intro before p between q after hsplit hsame r hr hfd
    cases h.written with
    | inl hold =>
      rw [hold] at hsplit
      exact hs.frames before p between q after hsplit hsame r hr hfd
    | inr hwrote =>
      obtain ⟨x, hx, hraii, hwritten⟩ := hwrote
      rw [hwritten, ← List.cons_append, ← List.append_assoc] at hsplit
      cases append_singleton_cases hsplit with
      | inl hlast =>
        -- the new piece ends a frame: its object lives, so nobody came in between
        obtain ⟨hwrote, rfl, -⟩ := hlast
        have hp := hs.writer p (by rw [hwrote]; simp)
        rw [hsame, hx] at hp
        cases hp with
        | inl hp =>
          refine hs.tail before p between hwrote ?_ r hr hfd
          rw [hsame, hx]
          exact hp
        | inr hp => cases hp
      | inr hbefore =>
        obtain ⟨after', hsplit', -⟩ := hbefore
        rw [List.append_assoc, List.cons_append] at hsplit'
        exact hs.frames before p between q after' hsplit' hsame r hr hfd

/-- The invariant holds of every reachable state. -/
theorem holderInv_reachable {s : HolderState} (hs : socketHolders.Reachable System.anyStep s) :
    HolderInv s :=
  System.Reachable.invariant HolderInv holderInv_start
    (fun _ _ _ hinv _ hstep => holderInv_step hinv (holderEffect_of_step hstep)) hs

/-! ### Exclusive use -/

/-- **A descriptor has one holder at a time.**  In every run no two live objects hold the same
descriptor, a held one stays in the map with its flag, `remove` refuses it, and what the objects
write to one descriptor is never mixed. -/
theorem socket_exclusive {s : HolderState} (hs : socketHolders.Reachable System.anyStep s) :
    (∀ o o' fd, s.raii o = .live fd → s.raii o' = .live fd → o = o') ∧
      (∀ o fd, s.raii o = .live fd →
        s.sockets fd = some true ∧ s.sockets.remove fd = (false, s.sockets)) ∧
      NotInterleaved s.written := by
  have hinv := holderInv_reachable hs
  refine ⟨hinv.alone, fun o fd ho => ?_, hinv.frames⟩
  have hflag := hinv.flagged o fd ho
  refine ⟨hflag, ?_⟩
  rw [SocketMap.remove, hflag]

/-- Two objects on two descriptors, one of which is given back, refused to a remover before, and
taken again. -/
def holderActions : List HolderAction :=
  [.insert 4, .insert 5, .get 0 4, .getSpecifiedFd 1 5, .write 0 [1], .remove 4, .insert 4,
    .write 1 [2], .write 0 [3], .unuse 0, .getSpecifiedFd 2 4, .write 2 [4]]

theorem socket_exclusive_two : ∃ s, socketHolders.Reachable System.anyStep s ∧
    s.written.map Piece.bytes = [[1], [2], [3], [4]] ∧
    (∀ o o' fd, s.raii o = .live fd → s.raii o' = .live fd → o = o') ∧
      (∀ o fd, s.raii o = .live fd →
        s.sockets fd = some true ∧ s.sockets.remove fd = (false, s.sockets)) ∧
      NotInterleaved s.written := by
  have hrun : ∃ s, socketHolders.run socketHolders.start holderActions = some s ∧
      s.written.map Piece.bytes = [[1], [2], [3], [4]] := ⟨_, rfl, rfl⟩
  obtain ⟨s, hrun, hwritten⟩ := hrun
  have hreach : socketHolders.Reachable System.anyStep s :=
    System.Reachable.run .start _ (System.meets_anyStep _ _) hrun
  exact ⟨s, hreach, hwritten, socket_exclusive hreach⟩

end Rojcpp.Judge
