import Rojcpp.Http.Route

/-!
# Which handler a request reaches

A sequence of `register_handler` calls leaves one entry for each path, that of the last call for
it.  The entry keeps the registered methods as their first letters only, so a method that shares its
first letter with a registered one reaches the handler too, and so does any token that starts with
such a letter.
-/

namespace Rojcpp.Http

/-! ### Registrations -/

/-- The arguments of one `register_handler`. -/
structure Registration where
  is : List HttpMethod
  raw_name : Str
  f : Call Unit
  ap : List AccessPoint

/-- The names of the methods it is for. -/
def Registration.names (g : Registration) : List Str := g.is.map typeToName

/-- The function it stores: the handler between its access points. -/
def Registration.invoker (g : Registration) : Call Unit := invoke g.f g.ap

/-- The router after a sequence of calls. -/
def registerAll (regs : List Registration) : HttpRouter :=
  regs.foldl (fun router g => router.registerHandler g.is g.raw_name g.f g.ap) fun _ => none

/-- The last registration of a path. -/
def latest (regs : List Registration) (path : Str) : Option Registration :=
  regs.reverse.find? fun g => g.raw_name == path

theorem registerAll_concat (regs : List Registration) (g : Registration) :
    registerAll (regs ++ [g]) =
      (registerAll regs).registerHandler g.is g.raw_name g.f g.ap := by
  rw [registerAll, registerAll, List.foldl_append, List.foldl_cons, List.foldl_nil]

/-- **The entry of a path** is that of its last registration. -/
theorem registerAll_apply (regs : List Registration) (path : Str) :
    registerAll regs path =
      (latest regs path).map fun g => ⟨getMethodArr g.is, g.invoker⟩ := by
  induction regs using List.reverseRecOn with
  | nil => rfl
  | append_singleton regs g ih =>
    rw [registerAll_concat, HttpRouter.registerHandler, latest, List.reverse_append,
      List.reverse_singleton, List.singleton_append]
    by_cases hpath : g.raw_name = path
    · have hfound : (g.raw_name == path) = true := beq_iff_eq.mpr hpath
      rw [List.find?_cons, hfound, hpath, Function.update_self]
      rfl
    · have hother : (g.raw_name == path) = false := beq_eq_false_iff_ne.mpr hpath
      rw [List.find?_cons, hother, Function.update_of_ne (Ne.symm hpath), ih]
      rfl

/-! ### The table of letters -/

/-- The place of a method's first letter. -/
def methodIndex (m : HttpMethod) : Option (Fin 26) := (typeToName m).head?.bind letterIndex

/-- Every name starts with a capital letter. -/
theorem typeToName_letter (m : HttpMethod) :
    ∃ c j, (typeToName m).head? = some c ∧ letterIndex c = some j ∧ c ≠ 0 := by
  cases m with
  | DEL => exact ⟨68, 3, rfl, rfl, by decide⟩
  | GET => exact ⟨71, 6, rfl, rfl, by decide⟩
  | HEAD => exact ⟨72, 7, rfl, rfl, by decide⟩
  | POST => exact ⟨80, 15, rfl, rfl, by decide⟩
  | PUT => exact ⟨80, 15, rfl, rfl, by decide⟩
  | CONNECT => exact ⟨67, 2, rfl, rfl, by decide⟩
  | OPTIONS => exact ⟨79, 14, rfl, rfl, by decide⟩
  | TRACE => exact ⟨84, 19, rfl, rfl, by decide⟩

/-- One method is stored at the place of its letter. -/
theorem getMethodArr_concat (is : List HttpMethod) (m : HttpMethod) (i : Fin 26) :
    getMethodArr (is ++ [m]) i ≠ 0 ↔ getMethodArr is i ≠ 0 ∨ methodIndex m = some i := by
  obtain ⟨c, j, hhead, hindex, hne⟩ := typeToName_letter m
  have hstep : getMethodArr (is ++ [m]) = Function.update (getMethodArr is) j c := by
    rw [getMethodArr, List.foldl_append, List.foldl_cons, List.foldl_nil]
    simp only [hhead, hindex]
    rfl
  rw [hstep, methodIndex, hhead, Option.bind_some, hindex]
  simp only [Option.some.injEq]
  by_cases hi : j = i
  · rw [hi, Function.update_self]
    exact iff_of_true hne (.inr rfl)
  · rw [Function.update_of_ne (Ne.symm hi), or_iff_left hi]

/-- A slot is set exactly when some method has its letter. -/
theorem getMethodArr_ne_zero (is : List HttpMethod) (i : Fin 26) :
    getMethodArr is i ≠ 0 ↔ ∃ m ∈ is, methodIndex m = some i := by
  induction is using List.reverseRecOn with
  | nil => exact iff_of_false (fun h => h rfl) (by simp)
  | append_singleton is m ih =>
    rw [getMethodArr_concat, ih]
    simp only [List.mem_append, List.mem_singleton, or_and_right, exists_or, exists_eq_left]

/-- Only one letter has a given place. -/
theorem letterIndex_inj {c d : UInt8} {i : Fin 26} (hc : letterIndex c = some i)
    (hd : letterIndex d = some i) : c = d := by
  rw [letterIndex] at hc hd
  split at hc
  · split at hd
    · have hci := congrArg Fin.val (Option.some.inj hc)
      have hdi := congrArg Fin.val (Option.some.inj hd)
      simp only at hci hdi
      exact UInt8.toNat_inj.mp (by omega)
    · cases hd
  · cases hc

/-! ### `route` after the registrations -/

/-- The registration's names that the method shares its first byte with. -/
def SharesInitial (g : Registration) (r : ParsedRequest) : Prop :=
  ∃ name ∈ g.names, name.head? = some r.method0

/-- What a router should do: run the function of the path's last registration if it is for the
request's method, and say so; otherwise nothing. -/
def intended (regs : List Registration) (r : ParsedRequest) : Call Bool :=
  match latest regs r.path with
  | none => pure false
  | some g =>
    if g.names.contains r.head.method = true then g.invoker >>= fun _ => pure true else pure false

/-- The slot of the method's first byte. -/
theorem slot_iff (g : Registration) (r : ParsedRequest) :
    (∃ i, letterIndex r.method0 = some i ∧ getMethodArr g.is i ≠ 0) ↔ SharesInitial g r := by
  simp only [getMethodArr_ne_zero, SharesInitial, Registration.names, List.mem_map,
    exists_exists_and_eq_and, methodIndex, Option.bind_eq_some_iff]
  constructor
  · intro h
    obtain ⟨i, hi, m, hm, c, hc, hci⟩ := h
    exact ⟨m, hm, by rw [hc, letterIndex_inj hci hi]⟩
  · intro h
    obtain ⟨m, hm, hhead⟩ := h
    obtain ⟨c, i, hc, hi, -⟩ := typeToName_letter m
    have hsame : c = r.method0 := Option.some.inj (hc.symm.trans hhead)
    rw [hsame] at hi
    exact ⟨i, hi, m, hm, r.method0, hhead, hi⟩

/-- A call that runs a function first does not just return `false`. -/
theorem bind_true_ne (c : Call Unit) (r : ParsedRequest) :
    (c >>= fun _ => pure true) ≠ (pure false : Call Bool) := by
  intro heq
  have happly := congrFun heq ⟨r, Response.init⟩
  cases hrun : c ⟨r, Response.init⟩ with
  | mk outcome x =>
    cases outcome with
    | ok a =>
      rw [Call.bind_ok hrun] at happly
      exact absurd (congrArg Prod.fst happly) (by simp)
    | error e =>
      rw [Call.bind_error hrun] at happly
      exact absurd (congrArg Prod.fst happly) (by simp)

/-- **What `route` does** after any registrations: it runs the function of the path's last one as
soon as a name of that shares its first byte with the method. -/
theorem route_registerAll (regs : List Registration) (r : ParsedRequest) :
    (∀ g, latest regs r.path = some g → SharesInitial g r →
        (registerAll regs).route r.method0 r.path = g.invoker >>= fun _ => pure true) ∧
      ((∀ g, latest regs r.path = some g → ¬ SharesInitial g r) →
        (registerAll regs).route r.method0 r.path = pure false) := by
  constructor
  · intro g hg hshares
    obtain ⟨i, hi, hslot⟩ := (slot_iff g r).mpr hshares
    refine HttpRouter.route_some ?_
    rw [HttpRouter.selected, registerAll_apply, hg, Option.map_some, Option.bind_some, hi,
      Option.bind_some, if_pos hslot]
  · intro hnone
    refine HttpRouter.route_none ?_
    rw [HttpRouter.selected, registerAll_apply]
    cases hg : latest regs r.path with
    | none => rfl
    | some g =>
      rw [Option.map_some, Option.bind_some]
      cases hi : letterIndex r.method0 with
      | none => rfl
      | some i =>
        have hslot : ¬ getMethodArr g.is i ≠ 0 := by
          intro hslot
          exact hnone g hg ((slot_iff g r).mp ⟨i, hi, hslot⟩)
        rw [Option.bind_some, if_neg hslot]

/-- A registered method shares its first byte with itself. -/
theorem sharesInitial_of_mem {g : Registration} {r : ParsedRequest}
    (h : r.head.method ∈ g.names) : SharesInitial g r :=
  ⟨r.head.method, h, List.head?_eq_some_head r.method_ne⟩

/-- **When `route` does what it should**: exactly when the path has no registration, or its last one
is for the request's method, or none of its names shares the method's first byte. -/
theorem route_intended_iff (regs : List Registration) (r : ParsedRequest) :
    (registerAll regs).route r.method0 r.path = intended regs r ↔
      ∀ g, latest regs r.path = some g → r.head.method ∈ g.names ∨ ¬ SharesInitial g r := by
  obtain ⟨hrun, hskip⟩ := route_registerAll regs r
  constructor
  · intro heq g hg
    by_cases hmem : r.head.method ∈ g.names
    · exact .inl hmem
    · refine .inr fun hshares => ?_
      rw [hrun g hg hshares, intended, hg] at heq
      simp only [List.contains_iff_mem, if_neg hmem] at heq
      exact bind_true_ne g.invoker r heq
  · intro hright
    cases hg : latest regs r.path with
    | none =>
      have hall : ∀ g', latest regs r.path = some g' → ¬ SharesInitial g' r := by
        intro g' hg'
        rw [hg] at hg'
        cases hg'
      rw [hskip hall, intended, hg]
    | some g =>
      rw [intended, hg]
      by_cases hmem : r.head.method ∈ g.names
      · rw [hrun g hg (sharesInitial_of_mem hmem)]
        simp only [List.contains_iff_mem, if_pos hmem]
      · have hnot : ¬ SharesInitial g r := by
          cases hright g hg with
          | inl h => exact absurd h hmem
          | inr h => exact h
        have hall : ∀ g', latest regs r.path = some g' → ¬ SharesInitial g' r := by
          intro g' hg'
          rw [hg] at hg'
          cases hg'
          exact hnot
        rw [hskip hall]
        simp only [List.contains_iff_mem, if_neg hmem]

/-! ### A handler for POST -/

/-- A handler registered for POST only. -/
def postOnly : Registration := ⟨[.POST], ascii "/a", pure (), []⟩

/-- A PUT request for its path. -/
def putRequest : ParsedRequest where
  buff := Buffer.init
  head := ⟨ascii "PUT", ascii "/a", 1, []⟩
  headerLen := 0
  bodyLen := 0
  path := ascii "/a"
  queryMap := []
  contentType := .unknown
  method_ne := by decide

/-- **A PUT request reaches the handler that is registered for POST.** -/
theorem put_reaches_post : ¬ ∀ (regs : List Registration) (r : ParsedRequest),
    (registerAll regs).route r.method0 r.path = intended regs r := by
  intro hall
  have heq := hall [postOnly] putRequest
  have hlatest : latest [postOnly] putRequest.path = some postOnly := rfl
  have hshares : SharesInitial postOnly putRequest :=
    ⟨ascii "POST", List.mem_singleton.mpr rfl, rfl⟩
  have hmem : ¬ putRequest.head.method ∈ postOnly.names := by decide
  rw [(route_registerAll [postOnly] putRequest).1 postOnly hlatest hshares, intended, hlatest]
    at heq
  simp only [List.contains_iff_mem, if_neg hmem] at heq
  exact bind_true_ne postOnly.invoker putRequest heq

end Rojcpp.Http
