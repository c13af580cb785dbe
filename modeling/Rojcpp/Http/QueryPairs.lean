import Mathlib.Algebra.BigOperators.Group.List.Basic
import Rojcpp.Http.Request

/-!
# Query strings

What `parse_query` makes of the text `k1=v1&k2=v2&...`.  At every `=` the text since the last
separator becomes the key, also inside a value: the part of the value in front of its last `=` is
taken for the key, and the key itself is forgotten.  The length of the text is kept in an `int`.

`parse_query_map_iff` says when the map is the one the text was made from.  Every stored value ends
at its first `=`, so the map cannot hold a value with one; and what is stored is never longer than
what was read.
-/

namespace Rojcpp.Http

open Rojcpp.Lib

/-- Between a key and its value. -/
abbrev equalSign : UInt8 := '='

/-- Between two pairs. -/
abbrev ampersand : UInt8 := '&'

/-- `parse_query` with its `int length`: the loop ends there, and so does the last value. -/
def parseQueryStr (str : Str) : List (Str × Str) :=
  parseQuery (str.take (Int32.ofNat str.length).toInt.toNat)

/-- A pair as a text. -/
def pairText (p : Str × Str) : Str := p.1 ++ equalSign :: p.2

/-- Pairs as a text. -/
def queryText : List (Str × Str) → Str
  | [] => []
  | [p] => pairText p
  | p :: ps => pairText p ++ ampersand :: queryText ps

/-- No blank at either end. -/
def NoOuterBlank (s : Str) : Prop := s.head? ≠ some ' ' ∧ s.getLast? ≠ some ' '

/-- Pairs with distinct keys that are not empty, where keys hold no separator and values none
between pairs. -/
structure QueryPairs (ps : List (Str × Str)) : Prop where
  nodup : (ps.map Prod.fst).Nodup
  key_ne : ∀ p ∈ ps, p.1 ≠ []
  key_plain : ∀ p ∈ ps, equalSign ∉ p.1 ∧ ampersand ∉ p.1
  value_plain : ∀ p ∈ ps, ampersand ∉ p.2
  trimmed : ∀ p ∈ ps, NoOuterBlank p.1 ∧ NoOuterBlank p.2

/-! ### Trimming -/

theorem dropWhile_blank {s : Str} (h : s.head? ≠ some ' ') :
    (s.dropWhile fun (c : UInt8) => c == ' ') = s := by
  cases s with
  | nil => rfl
  | cons c s =>
    refine List.dropWhile_cons_of_neg fun hc => h ?_
    rw [beq_iff_eq.mp hc]
    rfl

theorem trim_eq_self {s : Str} (h : NoOuterBlank s) : trim s = s := by
  have hlast : s.reverse.head? ≠ some ' ' := by
    rw [List.head?_reverse]
    exact h.2
  rw [trim, dropWhile_blank h.1, dropWhile_blank hlast, List.reverse_reverse]

/-- Trimming leaves out bytes only. -/
theorem trim_sublist (s : Str) : (trim s).Sublist s := by
  have hright := List.dropWhile_sublist (fun (c : UInt8) => c == ' ')
    (l := (s.dropWhile fun (c : UInt8) => c == ' ').reverse)
  have hback := List.reverse_sublist.mpr hright
  rw [List.reverse_reverse] at hback
  exact hback.trans (List.dropWhile_sublist _)

/-! ### One entry -/

theorem emplace_new {map : List (Str × Str)} {key : Str} (val : Str)
    (h : key ∉ map.map Prod.fst) : emplace map key val = map ++ [(key, val)] := by
  refine if_neg fun hany => h ?_
  obtain ⟨e, he, hkey⟩ := List.any_eq_true.mp hany
  rw [← beq_iff_eq.mp hkey]
  exact List.mem_map_of_mem he

theorem emplace_old {map : List (Str × Str)} {key : Str} (val : Str)
    (h : key ∈ map.map Prod.fst) : emplace map key val = map := by
  refine if_pos (List.any_eq_true.mpr ?_)
  obtain ⟨e, he, hkey⟩ := List.mem_map.mp h
  exact ⟨e, he, beq_iff_eq.mpr hkey⟩

/-! ### Pairs without further separators -/

/-- A text without separators is collected. -/
theorem parseQueryLoop_plain (s t : Str) (hs : equalSign ∉ s ∧ ampersand ∉ s) :
    ∀ (key cur : Str) (moved : Bool) (map : List (Str × Str)),
      parseQueryLoop key cur moved map (s ++ t) = parseQueryLoop key (cur ++ s) moved map t := by
  induction s with
  | nil =>
    intro key cur moved map
    rw [List.append_nil]
    rfl
  | cons c s ih =>
    intro key cur moved map
    obtain ⟨hequal, hamp⟩ := hs
    rw [List.mem_cons, not_or] at hequal hamp
    rw [List.cons_append, parseQueryLoop, if_neg (Ne.symm hequal.1), if_neg (Ne.symm hamp.1),
      ih ⟨hequal.2, hamp.2⟩, List.append_assoc]
    rfl

theorem parseQueryLoop_equal (key cur t : Str) (moved : Bool) (map : List (Str × Str)) :
    parseQueryLoop key cur moved map (equalSign :: t) =
      parseQueryLoop (trim cur) [] true map t := by
  rw [parseQueryLoop, if_pos rfl]

theorem parseQueryLoop_amp (key cur t : Str) (moved : Bool) (map : List (Str × Str)) :
    parseQueryLoop key cur moved map (ampersand :: t) =
      parseQueryLoop key [] true (emplace map key (trim cur)) t := by
  rw [parseQueryLoop, if_neg (by decide), if_pos rfl]

/-- The text of one pair, in front of whatever follows. -/
theorem parseQueryLoop_pair {k v : Str} (hk : equalSign ∉ k ∧ ampersand ∉ k)
    (hv : equalSign ∉ v ∧ ampersand ∉ v) (hktrim : NoOuterBlank k) (key t : Str) (moved : Bool)
    (map : List (Str × Str)) :
    parseQueryLoop key [] moved map (pairText (k, v) ++ t) = parseQueryLoop k v true map t := by
  rw [pairText, List.append_assoc, List.cons_append, parseQueryLoop_plain k _ hk, List.nil_append,
    parseQueryLoop_equal, trim_eq_self hktrim, parseQueryLoop_plain v t hv, List.nil_append]

/-- **Pairs are read back**, where no value holds a `=`. -/
theorem parseQueryLoop_pairs (ps : List (Str × Str)) (hne : ps ≠ []) :
    ∀ (key : Str) (moved : Bool) (map : List (Str × Str)), QueryPairs ps →
      (∀ p ∈ ps, equalSign ∉ p.2) → (∀ p ∈ ps, p.1 ∉ map.map Prod.fst) →
      parseQueryLoop key [] moved map (queryText ps) = map ++ ps := by
  induction ps with
  | nil => exact absurd rfl hne
  | cons p ps ih =>
    intro key moved map h hplain hfresh
    have hp := List.mem_cons_self (a := p) (l := ps)
    have hnew := hfresh p hp
    have hvalue : equalSign ∉ p.2 ∧ ampersand ∉ p.2 := ⟨hplain p hp, h.value_plain p hp⟩
    have htrim := trim_eq_self (h.trimmed p hp).2
    cases ps with
    | nil =>
      have hpair :=
        parseQueryLoop_pair (h.key_plain p hp) hvalue (h.trimmed p hp).1 key [] moved map
      rw [List.append_nil] at hpair
      show parseQueryLoop key [] moved map (pairText p) = _
      rw [hpair, parseQueryLoop, if_neg (by decide), htrim]
      by_cases hempty : p.2 = []
      · rw [if_pos hempty, emplace_new _ hnew, ← hempty]
      · rw [if_neg hempty, emplace_new _ hnew]
    | cons q ps =>
      have htail : QueryPairs (q :: ps) :=
        ⟨(List.nodup_cons.mp h.nodup).2, fun r hr => h.key_ne r (List.mem_cons_of_mem _ hr),
          fun r hr => h.key_plain r (List.mem_cons_of_mem _ hr),
          fun r hr => h.value_plain r (List.mem_cons_of_mem _ hr),
          fun r hr => h.trimmed r (List.mem_cons_of_mem _ hr)⟩
      have hrest : ∀ r ∈ q :: ps, r.1 ∉ (map ++ [p]).map Prod.fst := by
        intro r hr hmem
        rw [List.map_append, List.mem_append] at hmem
        cases hmem with
        | inl hold => exact hfresh r (List.mem_cons_of_mem _ hr) hold
        | inr hsame =>
          have hkey : r.1 = p.1 := List.mem_singleton.mp hsame
          exact (List.nodup_cons.mp h.nodup).1 (hkey ▸ List.mem_map_of_mem hr)
      show parseQueryLoop key [] moved map (pairText p ++ ampersand :: queryText (q :: ps)) = _
      rw [parseQueryLoop_pair (h.key_plain p hp) hvalue (h.trimmed p hp).1, parseQueryLoop_amp,
        htrim, emplace_new _ hnew, ih (List.cons_ne_nil _ _) p.1 true _ htail
          (fun r hr => hplain r (List.mem_cons_of_mem _ hr)) hrest, List.append_assoc]
      rfl

/-! ### What is stored -/

theorem emplace_values {map : List (Str × Str)} {key val : Str} (hmap : ∀ e ∈ map, equalSign ∉ e.2)
    (hval : equalSign ∉ val) : ∀ e ∈ emplace map key val, equalSign ∉ e.2 := by
  by_cases h : key ∈ map.map Prod.fst
  · rw [emplace_old val h]
    exact hmap
  · rw [emplace_new val h]
    refine List.forall_mem_append.mpr ⟨hmap, fun e he => ?_⟩
    rw [List.mem_singleton.mp he]
    exact hval

theorem not_mem_trim {s : Str} (h : equalSign ∉ s) : equalSign ∉ trim s :=
  fun hmem => h ((trim_sublist s).subset hmem)

/-- **No stored value holds a `=`.** -/
theorem parseQueryLoop_values (t : Str) : ∀ (key cur : Str) (moved : Bool)
    (map : List (Str × Str)), (∀ e ∈ map, equalSign ∉ e.2) → equalSign ∉ cur →
    ∀ e ∈ parseQueryLoop key cur moved map t, equalSign ∉ e.2 := by
  induction t with
  | nil =>
    intro key cur moved map hmap hcur
    rw [parseQueryLoop]
    split_ifs with hmoved hempty
    · exact fun e he => absurd he List.not_mem_nil
    · exact emplace_values hmap List.not_mem_nil
    · exact emplace_values hmap (not_mem_trim hcur)
  | cons c t ih =>
    intro key cur moved map hmap hcur
    rw [parseQueryLoop]
    split_ifs with hequal hamp
    · exact ih _ _ _ _ hmap List.not_mem_nil
    · exact ih _ _ _ _ (emplace_values hmap (not_mem_trim hcur)) List.not_mem_nil
    · refine ih _ _ _ _ hmap fun hmem => ?_
      cases List.mem_append.mp hmem with
      | inl h => exact hcur h
      | inr h => exact hequal (List.mem_singleton.mp h).symm

/-- The room the entries of a map take in a text, each with the two separators behind its parts. -/
def roomOf (map : List (Str × Str)) : ℕ := (map.map fun e => e.1.length + e.2.length + 2).sum

theorem roomOf_append (map : List (Str × Str)) (e : Str × Str) :
    roomOf (map ++ [e]) = roomOf map + (e.1.length + e.2.length + 2) := by
  rw [roomOf, List.map_append, List.sum_append, List.map_singleton, List.sum_singleton]
  rfl

/-- The room the current key will take, if it is a new one. -/
def keyRoom (map : List (Str × Str)) (key : Str) : ℕ :=
  if (map.map Prod.fst).contains key = true then 0 else key.length + 1

theorem keyRoom_le (map : List (Str × Str)) (key : Str) : keyRoom map key ≤ key.length + 1 := by
  rw [keyRoom]
  split_ifs
  · exact Nat.zero_le _
  · exact Nat.le_refl _

theorem roomOf_emplace (map : List (Str × Str)) (key val : Str) :
    roomOf (emplace map key val) + keyRoom (emplace map key val) key ≤
      roomOf map + keyRoom map key + val.length + 1 := by
  by_cases h : key ∈ map.map Prod.fst
  · rw [emplace_old val h]
    omega
  · have hnew : keyRoom map key = key.length + 1 := if_neg fun hc => h (List.contains_iff_mem.mp hc)
    have hold : keyRoom (map ++ [(key, val)]) key = 0 := by
      refine if_pos (List.contains_iff_mem.mpr ?_)
      rw [List.map_append]
      exact List.mem_append_right _ List.mem_cons_self
    rw [emplace_new val h, roomOf_append, hold, hnew]
    show roomOf map + (key.length + val.length + 2) + 0 ≤ _
    omega

/-- **What is stored is no longer than what was read.** -/
theorem roomOf_parseQueryLoop (t : Str) : ∀ (key cur : Str) (moved : Bool)
    (map : List (Str × Str)) (n : ℕ), roomOf map + keyRoom map key + cur.length ≤ n + 1 →
    roomOf (parseQueryLoop key cur moved map t) ≤ n + t.length + 2 := by
  induction t with
  | nil =>
    intro key cur moved map n hroom
    rw [parseQueryLoop]
    split_ifs with hmoved hempty
    · exact Nat.zero_le _
    · have hstored := roomOf_emplace map key []
      rw [List.length_nil] at hstored ⊢
      omega
    · have hstored := roomOf_emplace map key (trim cur)
      have htrim := (trim_sublist cur).length_le
      rw [List.length_nil]
      omega
  | cons c t ih =>
    intro key cur moved map n hroom
    have htrim := (trim_sublist cur).length_le
    rw [parseQueryLoop, List.length_cons]
    split_ifs with hequal hamp
    · have hkey := keyRoom_le map (trim cur)
      have hrest := ih (trim cur) [] true map (n + 1) (by rw [List.length_nil]; omega)
      omega
    · have hstored := roomOf_emplace map key (trim cur)
      have hrest := ih key [] true (emplace map key (trim cur)) (n + 1)
        (by rw [List.length_nil]; omega)
      omega
    · have hrest := ih key (cur ++ [c]) moved map (n + 1)
        (by rw [List.length_append, List.length_singleton]; omega)
      omega

theorem roomOf_parseQuery (str : Str) : roomOf (parseQuery str) ≤ str.length + 2 := by
  have h := roomOf_parseQueryLoop str [] [] false [] 0 (Nat.le_refl 1)
  rw [Nat.zero_add] at h
  exact h

/-- The pairs take the room of their text. -/
theorem roomOf_pairs (ps : List (Str × Str)) (hne : ps ≠ []) :
    roomOf ps = (queryText ps).length + 1 := by
  induction ps with
  | nil => exact absurd rfl hne
  | cons p ps ih =>
    have hpair : (pairText p).length = p.1.length + (p.2.length + 1) := List.length_append
    have hfirst : roomOf (p :: ps) = p.1.length + p.2.length + 2 + roomOf ps := List.sum_cons
    cases ps with
    | nil =>
      show roomOf [p] = (pairText p).length + 1
      rw [hpair, hfirst]
      show p.1.length + p.2.length + 2 + 0 = _
      omega
    | cons q ps =>
      have htext : (queryText (p :: q :: ps)).length =
          (pairText p).length + ((queryText (q :: ps)).length + 1) := List.length_append
      rw [hfirst, ih (List.cons_ne_nil _ _), htext, hpair]
      omega

/-! ### The length as an `int` -/

/-- A text that is too long is cut off by 4 GB or more, or not read at all. -/
theorem take_int_length (str : Str) :
    (str.length < 2 ^ 31 ∧ str.take (Int32.ofNat str.length).toInt.toNat = str) ∨
      (2 ^ 31 ≤ str.length ∧ (str.take (Int32.ofNat str.length).toInt.toNat = [] ∨
        (str.take (Int32.ofNat str.length).toInt.toNat).length + 2 ^ 32 ≤ str.length)) := by
  by_cases hshort : str.length < 2 ^ 31
  · refine .inl ⟨hshort, ?_⟩
    rw [Int32.toInt_ofNat_of_lt hshort, Int.toNat_natCast, List.take_length]
  · refine .inr ⟨Nat.not_lt.mp hshort, ?_⟩
    have hmod : (Int32.ofNat str.length).toInt % 2 ^ 32 = (str.length : ℤ) % 2 ^ 32 := by
      rw [Int32.toInt_ofNat']
      exact Int.bmod_emod
    have hlt := (Int32.ofNat str.length).toInt_lt
    by_cases hneg : (Int32.ofNat str.length).toInt ≤ 0
    · left
      rw [Int.toNat_of_nonpos hneg, List.take_zero]
    · right
      rw [List.length_take]
      omega

/-- **When `parse_query` gives the pairs back.**  For every list of pairs with distinct keys, the
map made of their text holds these pairs and no others if and only if no value holds a `=` and the
length of the text fits an `int`. -/
theorem parse_query_map_iff (ps : List (Str × Str)) (h : QueryPairs ps) :
    (parseQueryStr (queryText ps)).Perm ps ↔
      (∀ p ∈ ps, equalSign ∉ p.2) ∧ (queryText ps).length < 2 ^ 31 := by
  constructor
  · intro hperm
    have hvalues : ∀ p ∈ ps, equalSign ∉ p.2 := by
      intro p hp
      exact parseQueryLoop_values _ [] [] false [] (fun e he => absurd he List.not_mem_nil)
        List.not_mem_nil p (hperm.mem_iff.mpr hp)
    refine ⟨hvalues, ?_⟩
    rcases take_int_length (queryText ps) with ⟨hshort, -⟩ | ⟨hlong, hread⟩
    · exact hshort
    · exfalso
      have hne : ps ≠ [] := by
        rintro rfl
        exact absurd hlong (by decide)
      rw [parseQueryStr] at hperm
      rcases hread with hnothing | hcut
      · rw [hnothing] at hperm
        exact hne hperm.symm.eq_nil
      · have hstored := roomOf_parseQuery
          ((queryText ps).take (Int32.ofNat (queryText ps).length).toInt.toNat)
        have hroom := roomOf_pairs ps hne
        have hsame := (hperm.map fun e => e.1.length + e.2.length + 2).sum_eq
        rw [← roomOf, ← roomOf] at hsame
        omega
  · rintro ⟨hplain, hshort⟩
    rcases take_int_length (queryText ps) with ⟨-, hread⟩ | ⟨hlong, -⟩
    · rw [parseQueryStr, hread]
      by_cases hne : ps = []
      · rw [hne]
        exact List.Perm.refl _
      · have hpairs := parseQueryLoop_pairs ps hne [] false [] h hplain fun p _ => List.not_mem_nil
        rw [parseQuery, hpairs]
        exact List.Perm.refl _
    · omega

/-- Two pairs, the second with an empty value. -/
theorem parse_query_map_iff_two :
    (parseQueryStr (queryText [(ascii "id", ascii "7"), (ascii "q", [])])).Perm
      [(ascii "id", ascii "7"), (ascii "q", [])] :=
  (parse_query_map_iff [(ascii "id", ascii "7"), (ascii "q", [])]
    ⟨by decide, by decide, by decide, by decide, by
      rw [List.forall_mem_cons, List.forall_mem_singleton]
      exact ⟨⟨⟨by decide, by decide⟩, by decide, by decide⟩, ⟨by decide, by decide⟩, by decide,
        by decide⟩⟩).mpr (by decide)

/-- A value with a `=`: the key is lost, and a part of the value takes its place. -/
theorem equal_sign_in_value :
    QueryPairs [(ascii "a", ascii "b=c")] ∧
      parseQueryStr (queryText [(ascii "a", ascii "b=c")]) = [(ascii "b", ascii "c")] ∧
      ¬(parseQueryStr (queryText [(ascii "a", ascii "b=c")])).Perm [(ascii "a", ascii "b=c")] := by
  have hread : parseQueryStr (queryText [(ascii "a", ascii "b=c")]) =
      [(ascii "b", ascii "c")] := by decide +kernel
  refine ⟨⟨by decide, by decide, by decide, by decide, ?_⟩, hread, fun hperm => ?_⟩
  · rw [List.forall_mem_singleton]
    exact ⟨⟨by decide, by decide⟩, by decide, by decide⟩
  · rw [hread] at hperm
    exact absurd (List.singleton_perm_singleton.mp hperm) (by decide)

end Rojcpp.Http
