import Mathlib.Data.List.Nodup
import Mathlib.Logic.Function.Iterate

/-!
# Rings of nodes

Nodes with a pointer to the next and one to the previous node, and two operations: `push` puts a
node after another one, `removeSelf` closes the gap around a node and leaves the node's own
pointers as they are.

`Path x l z` says that the pointers lead from `x` through the nodes of `l` to `z` and back; a ring
is a path from its head to its head.  `Path.relink` is the one edit: a path that is kept up to its
last node and gets another end.  From it come `Ring.push`, which adds at the back, and
`Ring.removeSelf`, which takes out any node.  `Ring.inverse` and `Ring.read` say what one finds who
follows the pointers of a ring.
-/

namespace Rojcpp.Lib

open Function

/-- The pointers of all nodes. -/
structure Links (N : Type*) where
  next : N → N
  prev : N → N

namespace Links

variable {N : Type*} [DecidableEq N]

/-- Every node is alone. -/
def alone (N : Type*) : Links N := ⟨id, id⟩

/-- A node is alone. -/
def init (g : Links N) (node : N) : Links N := ⟨update g.next node node, update g.prev node node⟩

/-- `node` comes after `this`. -/
def push (g : Links N) (this node : N) : Links N :=
  let next := g.next this
  ⟨update (update g.next node next) this node, update (update g.prev node this) next node⟩

/-- The neighbours of a node become neighbours. -/
def removeSelf (g : Links N) (node : N) : Links N :=
  let prev := g.prev node
  let next := g.next node
  ⟨update g.next prev next, update g.prev next prev⟩

theorem push_next (g : Links N) (this node : N) :
    (g.push this node).next = update (update g.next node (g.next this)) this node := rfl

theorem push_prev (g : Links N) (this node : N) :
    (g.push this node).prev = update (update g.prev node this) (g.next this) node := rfl

theorem removeSelf_next (g : Links N) (node : N) :
    (g.removeSelf node).next = update g.next (g.prev node) (g.next node) := rfl

theorem removeSelf_prev (g : Links N) (node : N) :
    (g.removeSelf node).prev = update g.prev (g.next node) (g.prev node) := rfl

/-- A node that is alone can be taken out: nothing changes. -/
theorem init_removeSelf (g : Links N) (node : N) :
    (g.init node).removeSelf node = g.init node := by
  have hnext : (g.init node).next node = node := update_self _ _ _
  have hprev : (g.init node).prev node = node := update_self _ _ _
  show Links.mk (update _ _ _) (update _ _ _) = _
  rw [hnext, hprev, update_eq_self_iff.mpr hnext.symm, update_eq_self_iff.mpr hprev.symm]

end Links

section
variable {N : Type*} {g g' : Links N}

/-- The pointers lead from `x` through `l` to `z` and back. -/
def Path (g : Links N) (x : N) : List N → N → Prop
  | [], z => g.next x = z ∧ g.prev z = x
  | y :: l, z => g.next x = y ∧ g.prev y = x ∧ Path g y l z

/-- The nodes of `l` are in a ring with `h`. -/
structure Ring (g : Links N) (h : N) (l : List N) : Prop where
  path : Path g h l h
  nodup : (h :: l).Nodup

theorem path_append {x y z : N} {l r : List N} :
    Path g x (l ++ y :: r) z ↔ Path g x l y ∧ Path g y r z := by
  induction l generalizing x with
  | nil => exact and_assoc.symm
  | cons a l ih =>
    show (_ ∧ _ ∧ Path g a (l ++ y :: r) z) ↔ (_ ∧ _ ∧ Path g a l y) ∧ _
    rw [ih, and_assoc, and_assoc]

/-- A path reads the next nodes of its nodes, and the previous ones of all but its first. -/
theorem Path.congr {x z : N} {l : List N} (h : Path g x l z)
    (hnext : ∀ a ∈ x :: l, g'.next a = g.next a) (hprev : ∀ b ∈ l ++ [z], g'.prev b = g.prev b) :
    Path g' x l z := by
  induction l generalizing x with
  | nil =>
    refine ⟨?_, ?_⟩
    · rw [hnext x List.mem_cons_self]
      exact h.1
    · rw [hprev z List.mem_cons_self]
      exact h.2
  | cons y l ih =>
    obtain ⟨hxy, hyx, hrest⟩ := h
    refine ⟨?_, ?_, ?_⟩
    · rw [hnext x List.mem_cons_self]
      exact hxy
    · rw [hprev y List.mem_cons_self]
      exact hyx
    · exact ih hrest (fun a ha => hnext a (List.mem_cons_of_mem _ ha))
        fun b hb => hprev b (List.mem_cons_of_mem _ hb)

/-- The end of a path points back into it. -/
theorem Path.prev_mem {x z : N} {l : List N} (h : Path g x l z) : g.prev z ∈ x :: l := by
  induction l generalizing x with
  | nil =>
    rw [h.2]
    exact List.mem_cons_self
  | cons y l ih => exact List.mem_cons_of_mem _ (ih h.2.2)

/-- The last node of a path points to its end. -/
theorem Path.next_prev {x z : N} {l : List N} (h : Path g x l z) : g.next (g.prev z) = z := by
  induction l generalizing x with
  | nil =>
    rw [h.2]
    exact h.1
  | cons y l ih => exact ih h.2.2

/-- The two pointers are inverse to each other along a path. -/
theorem Path.inverse {x z : N} {l : List N} (h : Path g x l z) :
    (∀ a ∈ x :: l, g.prev (g.next a) = a) ∧ ∀ b ∈ l ++ [z], g.next (g.prev b) = b := by
  induction l generalizing x with
  | nil =>
    refine ⟨fun a ha => ?_, fun b hb => ?_⟩
    · rw [List.mem_singleton.mp ha, h.1, h.2]
    · rw [List.mem_singleton.mp hb, h.2, h.1]
  | cons y l ih =>
    obtain ⟨hxy, hyx, hrest⟩ := h
    obtain ⟨hnext, hprev⟩ := ih hrest
    refine ⟨fun a ha => ?_, fun b hb => ?_⟩
    · cases List.mem_cons.mp ha with
      | inl hax => rw [hax, hxy, hyx]
      | inr hal => exact hnext a hal
    · cases List.mem_cons.mp hb with
      | inl hby => rw [hby, hyx, hxy]
      | inr hbl => exact hprev b hbl

/-- **A path with another end**, that its last node now points to. -/
theorem Path.relink {x z z' : N} {l : List N} (h : Path g x l z) (hnodup : (x :: l).Nodup)
    (hnext : ∀ a ∈ x :: l, a ≠ g.prev z → g'.next a = g.next a)
    (hprev : ∀ b ∈ l, g'.prev b = g.prev b) (hlast : g'.next (g.prev z) = z')
    (hend : g'.prev z' = g.prev z) : Path g' x l z' := by
  induction l generalizing x with
  | nil =>
    rw [h.2] at hlast hend
    exact ⟨hlast, hend⟩
  | cons y l ih =>
    obtain ⟨hxy, hyx, hrest⟩ := h
    obtain ⟨hx, hl⟩ := List.nodup_cons.mp hnodup
    have hne : x ≠ g.prev z := fun hx' => hx (hx' ▸ hrest.prev_mem)
    refine ⟨?_, ?_, ?_⟩
    · rw [hnext x List.mem_cons_self hne]
      exact hxy
    · rw [hprev y List.mem_cons_self]
      exact hyx
    · exact ih hrest hl (fun a ha => hnext a (List.mem_cons_of_mem _ ha))
        fun b hb => hprev b (List.mem_cons_of_mem _ hb)

/-- The first node of a ring, which is the head when there is no other. -/
theorem Ring.next_head {h : N} {l : List N} (hr : Ring g h l) : g.next h = l.head?.getD h := by
  cases l with
  | nil => exact hr.path.1
  | cons x l => exact hr.path.1

/-- **The pointers of a ring are inverse to each other**, through its head as well. -/
theorem Ring.inverse {h : N} {l : List N} (hr : Ring g h l) :
    ∀ a ∈ h :: l, g.prev (g.next a) = a ∧ g.next (g.prev a) = a := by
  obtain ⟨hnext, hprev⟩ := hr.path.inverse
  intro a ha
  refine ⟨hnext a ha, hprev a ?_⟩
  rw [List.mem_append, List.mem_singleton]
  exact (List.mem_cons.mp ha).symm

/-- The two neighbours of a node are the same one when it is alone with the head. -/
theorem Ring.prev_eq_next_iff {h x : N} {l r : List N} (hr : Ring g h (l ++ x :: r)) :
    g.prev x = g.next x ↔ l ++ r = [] := by
  obtain ⟨hleft, hright⟩ := path_append.mp hr.path
  have hnodup : (h :: l ++ x :: r).Nodup := hr.nodup
  obtain ⟨hhl, -, hdisj⟩ := List.nodup_append.mp hnodup
  cases r with
  | cons y r =>
    have hne : l ++ y :: r ≠ [] := List.append_ne_nil_of_right_ne_nil l (List.cons_ne_nil y r)
    refine iff_of_false (fun heq => ?_) hne
    rw [hright.1] at heq
    exact hdisj _ hleft.prev_mem y (List.mem_cons_of_mem _ List.mem_cons_self) heq
  | nil =>
    rw [List.append_nil, hright.1]
    cases l with
    | nil => exact iff_of_true hleft.2 rfl
    | cons y l =>
      refine iff_of_false (fun heq => ?_) (List.cons_ne_nil y l)
      have hmem : h ∈ y :: l := by
        rw [← heq]
        exact hleft.2.2.prev_mem
      exact (List.nodup_cons.mp hhl).1 hmem

/-- **From the head one comes to the nodes of the ring and to no others.** -/
theorem Ring.reaches_iff {h : N} {l : List N} (hr : Ring g h l) (x : N) :
    (∃ k, g.next^[k] h = x) ↔ x ∈ h :: l := by
  have hnext : ∀ (l : List N) (y z : N), Path g y l z → ∀ a ∈ y :: l, g.next a ∈ l ++ [z] := by
    intro l
    induction l with
    | nil =>
      intro y z hp a ha
      rw [List.mem_singleton.mp ha, hp.1]
      exact List.mem_cons_self
    | cons b l ih =>
      intro y z hp a ha
      cases List.mem_cons.mp ha with
      | inl hay =>
        rw [hay, hp.1]
        exact List.mem_cons_self
      | inr hal => exact List.mem_cons_of_mem _ (ih b z hp.2.2 a hal)
  have hreach : ∀ (l : List N) (y z : N), Path g y l z → ∀ a ∈ y :: l, ∃ k, g.next^[k] y = a := by
    intro l
    induction l with
    | nil =>
      intro y z _ a ha
      exact ⟨0, (List.mem_singleton.mp ha).symm⟩
    | cons b l ih =>
      intro y z hp a ha
      cases List.mem_cons.mp ha with
      | inl hay => exact ⟨0, hay.symm⟩
      | inr hal =>
        obtain ⟨k, hk⟩ := ih b z hp.2.2 a hal
        exact ⟨k + 1, by rw [iterate_succ_apply, hp.1, hk]⟩
  constructor
  · intro hx
    obtain ⟨k, hk⟩ := hx
    rw [← hk]
    clear hk
    induction k with
    | zero => exact List.mem_cons_self
    | succ k ih =>
      rw [iterate_succ_apply']
      cases List.mem_append.mp (hnext l h h hr.path _ ih) with
      | inl hl => exact List.mem_cons_of_mem _ hl
      | inr hh =>
        rw [List.mem_singleton.mp hh]
        exact List.mem_cons_self
  · exact hreach l h h hr.path x

end

/-! ### Reading -/

section
variable {N : Type*} [DecidableEq N] {g : Links N}

/-- The nodes behind `x` as the next pointers give them, up to the end `z`. -/
def Links.read (g : Links N) (z : N) : ℕ → N → List N
  | 0, _ => []
  | fuel + 1, x => if g.next x = z then [] else g.next x :: g.read z fuel (g.next x)

theorem Path.read {z : N} {l : List N} (fuel : ℕ) : ∀ {x : N}, Path g x l z → z ∉ l →
    l.length ≤ fuel → g.read z fuel x = l := by
  induction l generalizing fuel with
  | nil =>
    intro x h _ _
    cases fuel with
    | zero => rfl
    | succ fuel => rw [Links.read, if_pos h.1]
  | cons y l ih =>
    intro x h hz hfuel
    obtain ⟨hxy, -, hrest⟩ := h
    obtain ⟨hzy, hzl⟩ := not_or.mp (List.mem_cons.not.mp hz)
    cases fuel with
    | zero => exact absurd hfuel (Nat.not_succ_le_zero _)
    | succ fuel =>
      rw [Links.read, hxy, if_neg (Ne.symm hzy), ih fuel hrest hzl (Nat.le_of_succ_le_succ hfuel)]

/-- **A ring is read from its head.** -/
theorem Ring.read {h : N} {l : List N} (hr : Ring g h l) {fuel : ℕ} (hfuel : l.length ≤ fuel) :
    g.read h fuel h = l :=
  hr.path.read fuel (List.nodup_cons.mp hr.nodup).1 hfuel

end

/-! ### Operations -/

section
variable {N : Type*} [DecidableEq N] {g : Links N} {h x : N} {l r : List N}

omit [DecidableEq N] in
theorem ring_alone (h : N) : Ring (Links.alone N) h [] := ⟨⟨rfl, rfl⟩, List.nodup_singleton h⟩

/-- Nodes that are in no ring do not matter to it. -/
theorem Ring.init (hr : Ring g h l) (hx : x ∉ h :: l) : Ring (g.init x) h l := by
  have hne : ∀ a ∈ h :: l, a ≠ x := fun a ha hax => hx (hax ▸ ha)
  refine ⟨hr.path.congr (fun a ha => update_of_ne (hne a ha) _ _) fun b hb => ?_, hr.nodup⟩
  refine update_of_ne (hne b ?_) _ _
  rw [List.mem_append, List.mem_singleton] at hb
  rw [List.mem_cons]
  exact hb.symm

/-- **A node is added at the back.** -/
theorem Ring.push (hr : Ring g h l) (hx : x ∉ h :: l) :
    Ring (g.push (g.prev h) x) h (l ++ [x]) := by
  have hlast : g.next (g.prev h) = h := hr.path.next_prev
  have hmem : g.prev h ∈ h :: l := hr.path.prev_mem
  have hne : ∀ a ∈ h :: l, a ≠ x := fun a ha hax => hx (hax ▸ ha)
  obtain ⟨hh, hl⟩ := List.nodup_cons.mp hr.nodup
  have hhx : h ≠ x := hne h List.mem_cons_self
  refine ⟨path_append.mpr ⟨?_, ?_, ?_⟩, ?_⟩
  · refine hr.path.relink hr.nodup (fun a ha hap => ?_) (fun b hb => ?_) ?_ ?_
    · rw [Links.push_next, update_of_ne hap, update_of_ne (hne a ha)]
    · have hbh : b ≠ h := fun hbh => hh (hbh ▸ hb)
      have hbx := hne b (List.mem_cons_of_mem _ hb)
      rw [Links.push_prev, hlast, update_of_ne hbh, update_of_ne hbx]
    · exact update_self _ _ _
    · rw [Links.push_prev, hlast, update_of_ne hhx.symm, update_self]
  · rw [Links.push_next, update_of_ne (hne _ hmem).symm, update_self, hlast]
  · rw [Links.push_prev, hlast, update_self]
  · rw [← List.cons_append, ← List.concat_eq_append]
    exact hr.nodup.concat hx

/-- **Any node can be taken out.** -/
theorem Ring.removeSelf (hr : Ring g h (l ++ x :: r)) : Ring (g.removeSelf x) h (l ++ r) := by
  obtain ⟨hleft, hright⟩ := path_append.mp hr.path
  have hnodup : (h :: l ++ x :: r).Nodup := hr.nodup
  obtain ⟨hhl, hxr, hdisj⟩ := List.nodup_append.mp hnodup
  have hlast : g.prev x ∈ h :: l := hleft.prev_mem
  have hother : ∀ a ∈ r, a ≠ g.prev x := fun a ha hax =>
    hdisj _ hlast a (List.mem_cons_of_mem _ ha) hax.symm
  -- the nodes before `x` lead to the node after it
  have hbefore : g.next x ∉ l → Path (g.removeSelf x) h l (g.next x) := by
    intro hnext
    refine hleft.relink hhl (fun a _ hap => ?_) (fun b hb => ?_) (update_self _ _ _)
      (update_self _ _ _)
    · rw [Links.removeSelf_next, update_of_ne hap]
    · have hbn : b ≠ g.next x := fun hbn => hnext (hbn ▸ hb)
      rw [Links.removeSelf_prev, update_of_ne hbn]
  refine ⟨?_, ?_⟩
  · cases r with
    | nil =>
      rw [List.append_nil]
      have hnext : g.next x = h := hright.1
      rw [hnext] at hbefore
      exact hbefore (List.nodup_cons.mp hhl).1
    | cons y r =>
      obtain ⟨hnext, -, hrest⟩ := hright
      rw [hnext] at hbefore
      have hy : y ∉ h :: l := fun hy =>
        hdisj y hy y (List.mem_cons_of_mem _ List.mem_cons_self) rfl
      refine path_append.mpr ⟨hbefore fun hyl => hy (List.mem_cons_of_mem _ hyl), ?_⟩
      refine hrest.congr (fun a ha => ?_) fun b hb => ?_
      · rw [Links.removeSelf_next, update_of_ne (hother a ha)]
      · have hby : b ≠ y := by
          cases List.mem_append.mp hb with
          | inl hbr =>
            intro hby
            exact (List.nodup_cons.mp (List.nodup_cons.mp hxr).2).1 (hby ▸ hbr)
          | inr hbh =>
            intro hby
            rw [List.mem_singleton.mp hbh] at hby
            exact hy (hby ▸ List.mem_cons_self)
        rw [Links.removeSelf_prev, hnext, update_of_ne hby]
  · exact hnodup.sublist ((List.sublist_cons_self x r).append_left (h :: l))

/-- Taking a node out again changes nothing, as its own pointers were left alone. -/
theorem Ring.removeSelf_removeSelf (hr : Ring g h (l ++ x :: r)) :
    (g.removeSelf x).removeSelf x = g.removeSelf x := by
  obtain ⟨hleft, hright⟩ := path_append.mp hr.path
  have hnodup : (h :: l ++ x :: r).Nodup := hr.nodup
  obtain ⟨-, hxr, hdisj⟩ := List.nodup_append.mp hnodup
  have hprev : x ≠ g.prev x := fun hx =>
    hdisj _ (hx ▸ hleft.prev_mem) x List.mem_cons_self rfl
  have hnext : x ≠ g.next x := by
    cases r with
    | nil =>
      intro hx
      exact hdisj h List.mem_cons_self x List.mem_cons_self (hx.trans hright.1).symm
    | cons y r =>
      intro hx
      rw [hright.1] at hx
      exact (List.nodup_cons.mp hxr).1 (hx ▸ List.mem_cons_self)
  have hsame : (g.removeSelf x).prev x = g.prev x ∧ (g.removeSelf x).next x = g.next x :=
    ⟨update_of_ne hnext _ _, update_of_ne hprev _ _⟩
  show Links.mk (update _ _ _) (update _ _ _) = _
  rw [hsame.1, hsame.2, Links.removeSelf_next, Links.removeSelf_prev, update_idem, update_idem]
  rfl

end

end Rojcpp.Lib
