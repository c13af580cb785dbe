import Rojcpp.Http.Deal
import Rojcpp.Lib.System

/-!
# What the receive loop has in its buffer

The loop of `server::deal` turn by turn, with what was delivered counted beside it.  A turn asks
`req_buff` for a window and reads into it; either may throw, and the handler of both lets the loop
go on with the `nread` of the turn before.

The buffer is accounted for when its used bytes are as many as were delivered, all of them are
allocated, and the window `req_buff` offers lies behind them in the block and is not empty.  The
theorem says for which outcomes of the reads this holds at every turn.
-/

namespace Rojcpp.Http

open Rojcpp.Lib

/-- How a turn begins: with a read, or with `req_buff` throwing because its memory is refused;
`memory` is what stands in memory behind the used bytes then. -/
inductive Attempt where
  | read (r : Recv)
  | refused (memory : ℕ → UInt8)

/-- How many bytes a read delivers. -/
def Recv.size : Recv → ℕ
  | .data _ more => more.length + 1
  | _ => 0

/-- How many bytes a turn delivers. -/
def Attempt.delivers : Attempt → ℕ
  | .read r => r.size
  | .refused _ => 0

/-- The turn's `try` block is left through an exception. -/
def Attempt.throws : Attempt → Bool
  | .read (.failed _) => true
  | .refused _ => true
  | _ => false

/-- `nread` behind the `try` block, and the bytes that stand where the counter is moved over. -/
def Recv.stored (nread : ℕ) : Recv → ℕ × Str
  | .data first more => (more.length + 1, first :: more)
  | .eof => (0, [])
  | .failed memory => (nread, (List.range nread).map memory)

/-- `req_buff`, when it gets its memory: no object has `2 ^ 63` bytes or more. -/
def Buffer.offer (b : Buffer) : Option Buffer :=
  if b.reqBuff.totMem < 2 ^ 63 then some b.reqBuff else none

/-- What is behind the `try` block: whether the loop goes on, and its variables. -/
def Loop.proceed (s : Loop) (buff : Buffer) (got : ℕ × Str) : Bool × Loop :=
  if got.1 = 0 then (false, ⟨{ s.req with buff }, got.1⟩)
  else
    let (parse_ret, req) := { s.req with buff := buff.updateUsedSized got.2 }.parseHeader
    (parse_ret == -2, ⟨req, got.1⟩)

/-- The loop with the count of what was delivered. -/
structure Turn where
  going : Bool
  loop : Loop
  delivered : ℕ

/-- The buffer at the turn. -/
def Turn.buff (t : Turn) : Buffer := t.loop.req.buff

/-- The loop before its first turn. -/
def Turn.start : Turn := ⟨true, Loop.init, 0⟩

/-- One turn.  A read needs a window and fits it, and `req_buff` throws only when it has to grow. -/
def Turn.next (t : Turn) (a : Attempt) : Option Turn :=
  if t.going = false then none
  else
    let after (buff : Buffer) (got : ℕ × Str) : Turn :=
      ⟨(t.loop.proceed buff got).1, (t.loop.proceed buff got).2, t.delivered + a.delivers⟩
    match a with
    | .read r => t.buff.offer.bind fun buff =>
        if r.size ≤ buff.leftSize then some (after buff (r.stored t.loop.nread)) else none
    | .refused memory =>
        if t.buff.reqBuff = t.buff then none
        else some (after t.buff ((Recv.failed memory).stored t.loop.nread))

/-- The receive loop. -/
def receiving : System Turn Attempt := ⟨Turn.start, Turn.next⟩

/-- The used bytes are those that were delivered, they are allocated, and the window that is offered
for the next ones lies behind them in the block and is not empty. -/
structure Accounted (t : Turn) : Prop where
  used : t.buff.usedSize = t.delivered
  allocated : t.buff.usedSize ≤ t.buff.totMem
  window : ∀ b, t.buff.offer = some b → b.usedSize + b.leftSize ≤ b.totMem ∧ 0 < b.leftSize

/-! ### One turn -/

theorem Request.parseHeader_buff (r : Request) : r.parseHeader.2.buff = r.buff := by
  rw [parseHeader]
  cases phrParseRequest 32 r.buff.data with
  | error e => rfl
  | ok p =>
    simp only
    split
    · rfl
    · split
      · rfl
      · split <;> rfl

/-- The turn is the one of `deal`: it reads on exactly when the loop goes on. -/
theorem dealRead_proceed (s s' : Loop) (r : Recv) :
    dealRead s r = .reading s' ↔
      s.proceed s.req.buff.reqBuff (r.stored s.nread) = (true, s') := by
  have hturn : dealRead s r =
      if (r.stored s.nread).1 = 0 then .processed { s.req with buff := s.req.buff.reqBuff }
      else
        let (parse_ret, req) := { s.req with
          buff := s.req.buff.reqBuff.updateUsedSized (r.stored s.nread).2 }.parseHeader
        if parse_ret = -2 then .reading ⟨req, (r.stored s.nread).1⟩
        else if parse_ret = -1 then .parseError
        else .processed req := by
    cases r <;> rfl
  rw [hturn, Loop.proceed]
  by_cases hnread : (r.stored s.nread).1 = 0
  · rw [if_pos hnread, if_pos hnread]
    exact iff_of_false (by simp) (by simp)
  · rw [if_neg hnread, if_neg hnread]
    generalize { s.req with
      buff := s.req.buff.reqBuff.updateUsedSized (r.stored s.nread).2 }.parseHeader = parsed
    by_cases hagain : parsed.1 = -2
    · simp [hagain]
    · have hgoing : (parsed.1 == -2) = false := beq_eq_false_iff_ne.mpr hagain
      by_cases herror : parsed.1 = -1
      · simp [herror]
      · simp [hagain, herror, hgoing]

/-- The buffer behind the `try` block. -/
theorem Loop.proceed_buff (s : Loop) (buff : Buffer) (got : ℕ × Str)
    (hgot : got.2.length = got.1) :
    (s.proceed buff got).2.req.buff = buff.updateUsedSized got.2 := by
  rw [proceed]
  by_cases hnread : got.1 = 0
  · rw [if_pos hnread, Buffer.updateUsedSized, List.length_eq_zero_iff.mp (hgot.trans hnread),
      List.append_nil]
  · rw [if_neg hnread]
    exact Request.parseHeader_buff _

/-- A loop that goes on has stored bytes. -/
theorem Loop.proceed_nread (s : Loop) (buff : Buffer) (got : ℕ × Str)
    (h : (s.proceed buff got).1 = true) : (s.proceed buff got).2.nread ≠ 0 := by
  rw [proceed] at h ⊢
  by_cases hnread : got.1 = 0
  · rw [if_pos hnread] at h
    cases h
  · rw [if_neg hnread]
    exact hnread

/-- What a turn does to the buffer: some bytes are taken into use behind the used ones of `base`.
A turn that throws takes in as many as the turn before. -/
structure TurnEffect (t : Turn) (a : Attempt) (t' : Turn) (base : Buffer) (bytes : Str) :
    Prop where
  running : t.going = true
  nread : t'.going = true → t'.loop.nread ≠ 0
  delivered : t'.delivered = t.delivered + a.delivers
  buff : t'.buff = base.updateUsedSized bytes
  data : base.data = t.buff.data
  origin : base = t.buff ∨ t.buff.offer = some base
  read : a.throws = false →
    t.buff.offer = some base ∧ bytes.length = a.delivers ∧ bytes.length ≤ base.leftSize
  stale : a.throws = true → bytes.length = t.loop.nread ∧ a.delivers = 0

theorem TurnEffect.base_usedSize {t t' : Turn} {a : Attempt} {base : Buffer} {bytes : Str}
    (h : TurnEffect t a t' base bytes) : base.usedSize = t.buff.usedSize := by
  rw [Buffer.usedSize, h.data, Buffer.usedSize]

theorem TurnEffect.usedSize {t t' : Turn} {a : Attempt} {base : Buffer} {bytes : Str}
    (h : TurnEffect t a t' base bytes) : t'.buff.usedSize = t.buff.usedSize + bytes.length := by
  rw [h.buff, Buffer.updateUsedSized_usedSize, h.base_usedSize]

theorem Buffer.offer_eq {b b' : Buffer} (h : b.offer = some b') :
    b' = b.reqBuff ∧ b'.totMem < 2 ^ 63 := by
  rw [offer] at h
  split at h
  · rename_i hlt
    cases h
    exact ⟨rfl, hlt⟩
  · cases h

theorem Recv.stored_length (nread : ℕ) (r : Recv) :
    (r.stored nread).2.length = (r.stored nread).1 := by
  cases r with
  | data first more => rfl
  | eof => rfl
  | failed memory =>
    show ((List.range nread).map memory).length = nread
    rw [List.length_map, List.length_range]

/-- A read that does not throw stores what it delivers. -/
theorem Recv.stored_size (nread : ℕ) (r : Recv) (h : (Attempt.read r).throws = false) :
    (r.stored nread).1 = r.size := by
  cases r with
  | data first more => rfl
  | eof => rfl
  | failed memory => cases h

/-- A read that throws leaves the `nread` of the turn before. -/
theorem Recv.stored_failed (nread : ℕ) (r : Recv) (h : (Attempt.read r).throws = true) :
    (r.stored nread).1 = nread ∧ r.size = 0 := by
  cases r with
  | data first more => cases h
  | eof => cases h
  | failed memory => exact ⟨rfl, rfl⟩

/-- **What one turn can do.** -/
theorem Turn.next_effect {t t' : Turn} {a : Attempt} (h : t.next a = some t') :
    ∃ base bytes, TurnEffect t a t' base bytes := by
  rw [next] at h
  by_cases hgoing : t.going = false
  · rw [if_pos hgoing] at h
    cases h
  rw [if_neg hgoing] at h
  have hrunning : t.going = true := Bool.eq_true_of_not_eq_false hgoing
  cases a with
  | read r =>
    obtain ⟨buff, hoffer, hfits⟩ := Option.bind_eq_some_iff.mp h
    obtain ⟨hfit, ht'⟩ := Option.ite_none_right_eq_some.mp hfits
    cases ht'
    have hlength := r.stored_length t.loop.nread
    refine ⟨buff, (r.stored t.loop.nread).2, ⟨hrunning, ?_, rfl, ?_, ?_, .inr hoffer, ?_, ?_⟩⟩
    · exact t.loop.proceed_nread buff _
    · exact t.loop.proceed_buff buff _ hlength
    · rw [(Buffer.offer_eq hoffer).1, Buffer.reqBuff_data]
    · intro hthrows
      have hsize := hlength.trans (r.stored_size t.loop.nread hthrows)
      exact ⟨hoffer, hsize, Nat.le_trans (Nat.le_of_eq hsize) hfit⟩
    · intro hthrows
      obtain ⟨hstale, hnone⟩ := r.stored_failed t.loop.nread hthrows
      exact ⟨hlength.trans hstale, hnone⟩
  | refused memory =>
    obtain ⟨-, ht'⟩ := Option.ite_none_left_eq_some.mp h
    cases ht'
    have hlength := (Recv.failed memory).stored_length t.loop.nread
    refine ⟨t.buff, ((Recv.failed memory).stored t.loop.nread).2,
      ⟨hrunning, ?_, rfl, ?_, rfl, .inl rfl, ?_, ?_⟩⟩
    · exact t.loop.proceed_nread t.buff _
    · exact t.loop.proceed_buff t.buff _ hlength
    · intro hthrows
      cases hthrows
    · intro _
      exact ⟨hlength, rfl⟩

/-- The offered window, where the used bytes are allocated. -/
theorem Buffer.offer_window {b b' : Buffer} (h : b.offer = some b') (hused : b.usedSize ≤ b.totMem)
    (htot : b.totMem < 2 ^ 63) :
    b'.usedSize ≤ b'.totMem ∧ b'.totMem < 2 ^ 63 ∧ b'.leftSize = b'.totMem - b'.usedSize ∧
      0 < b'.leftSize := by
  obtain ⟨rfl, hlt⟩ := offer_eq h
  obtain ⟨hle, hleft, hpos⟩ := reqBuff_window hused (by omega) (by omega)
  exact ⟨hle, hlt, hleft, hpos⟩

/-! ### The run -/

/-- What every turn keeps that does not take stale bytes into use. -/
structure Turn.Kept (t : Turn) : Prop where
  used : t.buff.usedSize = t.delivered
  allocated : t.buff.usedSize ≤ t.buff.totMem
  tot : t.buff.totMem < 2 ^ 63

/-- The condition on a turn: it throws only while no turn before has stored bytes. -/
def ThrowsUnread (t : Turn) (a : Attempt) : Prop := a.throws = true → t.loop.nread = 0

theorem Turn.Kept.accounted {t : Turn} (h : t.Kept) : Accounted t := by
  refine ⟨h.used, h.allocated, fun b hb => ?_⟩
  obtain ⟨hused, -, hleft, hpos⟩ := Buffer.offer_window hb h.allocated h.tot
  exact ⟨by omega, hpos⟩

theorem Turn.start_kept : Turn.start.Kept := ⟨rfl, Nat.le_refl 0, by decide⟩

/-- A turn keeps the account when it reads into its window, and when it throws before anything was
stored. -/
theorem Turn.Kept.next {t t' : Turn} {a : Attempt} (h : t.Kept) (hok : ThrowsUnread t a)
    (ha : t.next a = some t') : t'.Kept := by
  obtain ⟨base, bytes, he⟩ := next_effect ha
  have hsame := he.base_usedSize
  -- the base the bytes are put on is itself sound, whether `req_buff` has changed it or not
  have hbase : base.usedSize ≤ base.totMem ∧ base.totMem < 2 ^ 63 := by
    rcases he.origin with hkept | hoffer
    · rw [hkept]
      exact ⟨h.allocated, h.tot⟩
    · obtain ⟨hused, htot, -⟩ := Buffer.offer_window hoffer h.allocated h.tot
      exact ⟨hused, htot⟩
  have hfits : bytes.length = a.delivers ∧ base.usedSize + bytes.length ≤ base.totMem := by
    cases hthrows : a.throws with
    | false =>
      obtain ⟨hoffer, hsize, hfit⟩ := he.read hthrows
      obtain ⟨hused, -, hleft, -⟩ := Buffer.offer_window hoffer h.allocated h.tot
      exact ⟨hsize, by omega⟩
    | true =>
      obtain ⟨hstale, hnone⟩ := he.stale hthrows
      have hzero := hok hthrows
      omega
  refine ⟨?_, ?_, ?_⟩
  · rw [he.usedSize, h.used, he.delivered, hfits.1]
  · rw [he.usedSize, ← hsame, he.buff]
    exact hfits.2
  · rw [he.buff]
    exact hbase.2

/-- A turn that throws behind one that stored bytes counts these bytes once more. -/
theorem Turn.Kept.stale {t t' : Turn} {a : Attempt} (h : t.Kept) (hbad : ¬ThrowsUnread t a)
    (ha : t.next a = some t') : ¬Accounted t' := by
  intro hacc
  obtain ⟨base, bytes, he⟩ := next_effect ha
  obtain ⟨hthrows, hnread⟩ := Classical.not_imp.mp hbad
  obtain ⟨hstale, hnone⟩ := he.stale hthrows
  have hused := hacc.used
  rw [he.usedSize, h.used, he.delivered] at hused
  omega

/-- Behind the first turn the loop goes on with stored bytes, so that no later turn may throw. -/
theorem meets_throwsUnread (as : List Attempt) : ∀ {t u : Turn},
    (t.going = true → t.loop.nread ≠ 0) → receiving.run t as = some u →
    (receiving.Meets ThrowsUnread t as ↔ ∀ a ∈ as, a.throws = false) := by
  induction as with
  | nil => exact fun _ _ => iff_of_true trivial (fun _ ha => absurd ha List.not_mem_nil)
  | cons a as ih =>
    intro t u hnread h
    obtain ⟨t', ht', hrun⟩ := Option.bind_eq_some_iff.mp h
    obtain ⟨base, bytes, he⟩ := Turn.next_effect ht'
    have hrest := ih he.nread hrun
    have hnow : ThrowsUnread t a ↔ a.throws = false := by
      cases hthrows : a.throws with
      | false => exact iff_of_true (fun h => absurd (hthrows.symm.trans h) (by decide)) rfl
      | true => exact iff_of_false (fun h => hnread he.running (h hthrows)) (by decide)
    rw [List.forall_mem_cons, ← hnow, ← hrest]
    constructor
    · exact fun hmeets => ⟨hmeets.1, hmeets.2 t' ht'⟩
    · intro hmeets
      refine ⟨hmeets.1, fun t'' ht'' => ?_⟩
      cases ht'.symm.trans ht''
      exact hmeets.2

/-- **The loop accounts for its buffer exactly when no turn behind the first one throws.**  For
every sequence of turns, the used size is the number of bytes delivered, and the offered window lies
behind them in the block, at every turn if and only if an exception, when there is one, comes out of
the first turn. -/
theorem accounted_iff (as : List Attempt) {t : Turn} (h : receiving.run Turn.start as = some t) :
    receiving.Throughout Accounted Turn.start as ↔ ∀ a ∈ as.tail, a.throws = false := by
  have hmeets : receiving.Throughout Accounted Turn.start as ↔
      receiving.Meets ThrowsUnread Turn.start as :=
    System.throughout_iff (fun _ hs => Turn.Kept.accounted hs)
      (fun _ _ _ hs hok ha => hs.next hok ha) (fun _ _ _ hs hbad ha => hs.stale hbad ha)
      as Turn.start_kept h
  rw [hmeets]
  cases as with
  | nil => exact iff_of_true trivial (fun _ ha => absurd ha List.not_mem_nil)
  | cons a as =>
    obtain ⟨t', ht', hrun⟩ := Option.bind_eq_some_iff.mp h
    obtain ⟨base, bytes, he⟩ := Turn.next_effect (t := Turn.start) ht'
    have hrest := meets_throwsUnread as he.nread hrun
    rw [List.tail_cons, ← hrest]
    constructor
    · exact fun hall => hall.2 t' ht'
    · intro hall
      refine ⟨fun _ => rfl, fun t'' ht'' => ?_⟩
      cases ht'.symm.trans ht''
      exact hall

/-- The beginning of a request line, in two reads. -/
theorem accounted_partial :
    receiving.Throughout Accounted Turn.start [.read (.data 71 []), .read (.data 69 [84])] := by
  have hruns : (receiving.run Turn.start
      [.read (.data 71 []), .read (.data 69 [84])]).isSome = true := by decide +kernel
  obtain ⟨t, ht⟩ := Option.isSome_iff_exists.mp hruns
  apply (accounted_iff _ ht).mpr
  intro a ha
  cases List.mem_singleton.mp ha
  rfl

/-- **A read that fails behind a part of the head**: its one byte is counted twice. -/
theorem stale_nread :
    ¬ receiving.Throughout Accounted Turn.start
      [.read (.data 71 []), .read (.failed fun _ => 0)] := by
  intro hall
  have hcounts : (receiving.run Turn.start [.read (.data 71 []), .read (.failed fun _ => 0)]).map
      (fun t => (t.buff.usedSize, t.delivered)) = some (2, 1) := by decide +kernel
  obtain ⟨t, ht, hcount⟩ := Option.map_eq_some_iff.mp hcounts
  have hused := (hall _ [] t (List.append_nil _).symm ht).used
  rw [Prod.mk.injEq] at hcount
  omega

end Rojcpp.Http
