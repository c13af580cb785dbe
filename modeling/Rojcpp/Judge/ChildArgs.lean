import Rojcpp.Judge.CommandLine
import Rojcpp.Lib.Memory

/-!
# The arrays handed to `execve`

`child_process` ends with two arrays of 256 pointers on its stack, all of them NULL at first.  The
path of the program goes into the first place of `args`, and two loops copy the pointers of the
arguments behind it and those of the environment into `env`.  `execve` reads each array up to its
first NULL.

Both loops stop at 256 entries, and the one for the arguments stores one place further on.
-/

namespace Rojcpp.Judge

open Rojcpp.Lib

/-- A `char *`: NULL, or the characters of a string. -/
abbrev CharPtr := Option Str

/-- The number of places of each array. -/
def arraySize : ℕ := 256

/-- The stores of `for (i = 0; i < 256 && i < from.size(); ++i) to[i + offset] = from[i].data()`,
from `i` on, where `from` goes on with this list. -/
def copyStores (offset : ℕ) : ℕ → List Str → List (Write CharPtr)
  | _, [] => []
  | i, s :: rest =>
    if i < 256 then ⟨i + offset, [some s]⟩ :: copyStores offset (i + 1) rest else []

/-- The stores to `args`. -/
def Config.argsStores (c : Config) : List (Write CharPtr) :=
  ⟨0, [some c.exePath]⟩ :: copyStores 1 0 c.args

/-- The stores to `env`. -/
def Config.envStores (c : Config) : List (Write CharPtr) := copyStores 0 0 c.env

/-- `execve` reads these strings from an array of 256 places. -/
structure ReadsStrings (mem : ℕ → CharPtr) (xs : List Str) : Prop where
  room : xs.length < arraySize
  strings : window mem 0 xs.length = xs.map some
  null : mem xs.length = none

/-- Every store is inside its array, and `execve` gets the path with a prefix of the arguments and a
prefix of the environment. -/
structure HandedOver (c : Config) : Prop where
  argsInside : ∀ w ∈ c.argsStores, w.Below arraySize
  envInside : ∀ w ∈ c.envStores, w.Below arraySize
  args : ∃ xs, ReadsStrings (writeAll (fun _ => none) c.argsStores) (c.exePath :: xs) ∧
    xs <+: c.args
  env : ∃ xs, ReadsStrings (writeAll (fun _ => none) c.envStores) xs ∧ xs <+: c.env

/-! ### One loop -/

/-- The loop stores the first 256 strings side by side. -/
theorem writeAll_copyStores (offset : ℕ) (l : List Str) : ∀ (i : ℕ) (mem : ℕ → CharPtr),
    writeAll mem (copyStores offset i l) =
      store mem (i + offset) ((l.take (256 - i)).map some) := by
  induction l with
  | nil =>
    intro i mem
    rw [List.take_nil]
    rfl
  | cons s l ih =>
    intro i mem
    rw [copyStores]
    by_cases hi : i < 256
    · have htake : 256 - i = 256 - (i + 1) + 1 := by omega
      rw [if_pos hi, htake, List.take_succ_cons, List.map_cons, store]
      show writeAll (Function.update mem (i + offset) (some s)) _ = _
      rw [ih, Nat.add_right_comm]
    · have hnone : 256 - i = 0 := by omega
      rw [if_neg hi, hnone, List.take_zero]
      rfl

/-- The places it stores to. -/
theorem covers_copyStores (offset : ℕ) (l : List Str) : ∀ i k : ℕ,
    (∃ w ∈ copyStores offset i l, w.Covers k) ↔
      i + offset ≤ k ∧ k < i + offset + (l.take (256 - i)).length := by
  induction l with
  | nil =>
    intro i k
    rw [List.take_nil]
    refine iff_of_false ?_ (by rw [List.length_nil]; omega)
    rintro ⟨w, hw, -⟩
    exact absurd hw List.not_mem_nil
  | cons s l ih =>
    intro i k
    rw [copyStores]
    by_cases hi : i < 256
    · have htake : 256 - i = 256 - (i + 1) + 1 := by omega
      rw [if_pos hi, htake, List.take_succ_cons, List.length_cons]
      have hrest := ih (i + 1) k
      have hfirst : Write.Covers ⟨i + offset, [some s]⟩ k ↔ k = i + offset := by
        show i + offset ≤ k ∧ k < i + offset + 1 ↔ _
        omega
      constructor
      · rintro ⟨w, hw, hcovers⟩
        cases List.mem_cons.mp hw with
        | inl heq =>
          rw [heq, hfirst] at hcovers
          omega
        | inr hmem =>
          have hk := hrest.mp ⟨w, hmem, hcovers⟩
          omega
      · intro hk
        by_cases hplace : k = i + offset
        · exact ⟨_, List.mem_cons_self, hfirst.mpr hplace⟩
        · obtain ⟨w, hmem, hcovers⟩ := hrest.mpr (by omega)
          exact ⟨w, List.mem_cons_of_mem _ hmem, hcovers⟩
    · have hnone : 256 - i = 0 := by omega
      rw [if_neg hi, hnone, List.take_zero]
      refine iff_of_false ?_ (by rw [List.length_nil]; omega)
      rintro ⟨w, hw, -⟩
      exact absurd hw List.not_mem_nil

theorem copyStores_inside (offset : ℕ) (l : List Str) :
    (∀ w ∈ copyStores offset 0 l, w.Below arraySize) ↔
      (l.take 256).length = 0 ∨ offset + (l.take 256).length ≤ arraySize := by
  have hcovers := covers_copyStores offset l 0
  rw [Nat.zero_add, Nat.sub_zero] at hcovers
  constructor
  · intro h
    by_contra hout
    -- the last store
    obtain ⟨w, hw, hlast⟩ := (hcovers (offset + (l.take 256).length - 1)).mpr (by omega)
    have hbelow := h w hw _ hlast
    omega
  · intro h w hw k hk
    have hplace := (hcovers k).mp ⟨w, hw, hk⟩
    omega

/-! ### What `execve` reads -/

/-- **From strings stored at the front of an array of NULLs, `execve` reads these strings**, if the
array has a place behind them, and nothing otherwise. -/
theorem readsStrings_iff (xs ys : List Str) :
    ReadsStrings (store (fun _ => none) 0 (xs.map some)) ys ↔
      ys = xs ∧ xs.length < arraySize := by
  have hread : window (store (fun _ => none) 0 (xs.map some)) 0 xs.length = xs.map some := by
    have h := window_store (xs.map some) (fun _ => none) 0
    rw [List.length_map] at h
    exact h
  have hbehind : store (fun _ => none) 0 (xs.map some) xs.length = none :=
    store_outside _ _ _ (.inr (by rw [List.length_map, Nat.zero_add]))
  -- a place of a window that holds strings is not NULL
  have hstring : ∀ {l : List Str} {mem : ℕ → CharPtr} {k : ℕ},
      window mem 0 l.length = l.map some → k < l.length → mem k ≠ none := by
    intro l mem k hwindow hk hnull
    have hplace := congrArg (fun cells => cells[k]?) hwindow
    simp only [window, List.getElem?_map, List.getElem?_range hk, Option.map_some, Nat.zero_add,
      hnull, List.getElem?_eq_getElem hk] at hplace
    cases hplace
  constructor
  · intro h
    have hlength : ys.length = xs.length := by
      rcases Nat.lt_trichotomy ys.length xs.length with hlt | heq | hgt
      · exact absurd h.null (hstring hread hlt)
      · exact heq
      · exact absurd hbehind (hstring h.strings hgt)
    have hmap := h.strings
    rw [hlength, hread] at hmap
    have heq : ys = xs := (List.map_injective_iff.mpr (Option.some_injective _) hmap).symm
    exact ⟨heq, by rw [← heq]; exact h.room⟩
  · rintro ⟨heq, hroom⟩
    subst heq
    exact ⟨hroom, hread, hbehind⟩

theorem writeAll_argsStores (c : Config) :
    writeAll (fun _ => none) c.argsStores =
      store (fun _ => none) 0 ((c.exePath :: c.args.take 256).map some) := by
  show writeAll (Function.update (fun _ => none) 0 (some c.exePath)) (copyStores 1 0 c.args) = _
  rw [writeAll_copyStores, Nat.sub_zero]
  rfl

theorem writeAll_envStores (c : Config) :
    writeAll (fun _ => none) c.envStores =
      store (fun _ => none) 0 ((c.env.take 256).map some) :=
  writeAll_copyStores 0 c.env 0 _

/-- **When the arrays are handed over as they should be**: with at most 254 arguments and at most
255 entries of the environment. -/
theorem handedOver_iff (c : Config) :
    HandedOver c ↔ c.args.length ≤ 254 ∧ c.env.length ≤ 255 := by
  have hargs := writeAll_argsStores c
  have henv := writeAll_envStores c
  have hsize : arraySize = 256 := rfl
  constructor
  · intro h
    obtain ⟨xs, hxs, -⟩ := h.args
    obtain ⟨ys, hys, -⟩ := h.env
    rw [hargs, readsStrings_iff, List.length_cons, List.length_take] at hxs
    rw [henv, readsStrings_iff, List.length_take] at hys
    omega
  · rintro ⟨hlargs, hlenv⟩
    refine ⟨fun w hw => ?_, ?_, ⟨c.args.take 256, ?_, List.take_prefix _ _⟩,
      ⟨c.env.take 256, ?_, List.take_prefix _ _⟩⟩
    · cases List.mem_cons.mp hw with
      | inl hpath =>
        rw [hpath]
        intro k hk
        have hk' : k < 0 + 1 := hk.2
        omega
      | inr hcopy =>
        refine (copyStores_inside 1 c.args).mpr (.inr ?_) w hcopy
        rw [List.length_take]
        omega
    · refine (copyStores_inside 0 c.env).mpr (.inr ?_)
      rw [List.length_take]
      omega
    · rw [hargs, readsStrings_iff, List.length_cons, List.length_take]
      exact ⟨rfl, by omega⟩
    · rw [henv, readsStrings_iff, List.length_take]
      exact ⟨rfl, by omega⟩

/-- 256 arguments: the last one is stored behind the array. -/
theorem many_args_outside :
    ¬HandedOver { args := List.replicate 256 (ascii "a") } := by
  intro h
  have hinside : ∀ w ∈ copyStores 1 0 (List.replicate 256 (ascii "a")), w.Below arraySize :=
    fun w hw => h.argsInside w (List.mem_cons_of_mem _ hw)
  have hsize : arraySize = 256 := rfl
  rw [copyStores_inside, List.length_take, List.length_replicate] at hinside
  omega

end Rojcpp.Judge
