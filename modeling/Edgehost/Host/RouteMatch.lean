import Mathlib.Data.List.MinMax
import Edgehost.Host.PluginHost

/-!
# The longest registered prefix

`edge_plugin_host_match` is a maximum over the registered routes that cover the path, by the length
of the prefix, where of two routes of one length the later one is taken. Two prefixes of one path that
are equally long are the same, so the later one is a second registration of the same prefix, and with
distinct prefixes the order of the registrations does not matter.
-/

namespace Edgehost

variable {P : Type*}

/-! ## The first greatest element -/

/-- What `argmax` takes stands before all elements that are as great. -/
theorem argmax_split {α β : Type*} [LinearOrder β] {f : α → β} {l : List α} {m : α}
    (h : l.argmax f = some m) : ∃ xs ys, l = xs ++ m :: ys ∧ ∀ x ∈ xs, f x < f m := by
  induction l with
  | nil => simp at h
  | cons a l ih =>
    rw [List.argmax_cons] at h
    rcases hl : l.argmax f with _ | c
    · rw [hl] at h
      obtain rfl := Option.some.inj h
      exact ⟨[], l, rfl, by simp⟩
    · rw [hl] at h
      change (if f a < f c then some c else some a) = some m at h
      by_cases hac : f a < f c
      · rw [if_pos hac] at h
        obtain rfl := Option.some.inj h
        obtain ⟨xs, ys, rfl, hxs⟩ := ih hl
        refine ⟨a :: xs, ys, rfl, ?_⟩
        intro x hx
        rcases List.mem_cons.mp hx with rfl | hx
        · exact hac
        · exact hxs x hx
      · rw [if_neg hac] at h
        obtain rfl := Option.some.inj h
        exact ⟨[], l, rfl, by simp⟩

/-- With distinct keys the greatest element is the same in every order. -/
theorem argmax_perm {α β : Type*} [LinearOrder β] {f : α → β} {l l' : List α} (hperm : l.Perm l')
    (hinj : ∀ a ∈ l, ∀ b ∈ l, f a = f b → a = b) : l.argmax f = l'.argmax f := by
  rcases hl : l.argmax f with _ | m
  · rw [List.argmax_eq_none.mp hl] at hperm
    rw [List.nil_perm.mp hperm, List.argmax_nil]
  · rcases hl' : l'.argmax f with _ | m'
    · rw [List.argmax_eq_none.mp hl', List.perm_nil] at hperm
      rw [hperm] at hl
      cases hl
    · have hm := List.argmax_mem hl
      have hm' := hperm.mem_iff.mpr (List.argmax_mem hl')
      have hle := List.le_of_mem_argmax hm' hl
      have hge := List.le_of_mem_argmax (hperm.mem_iff.mp hm) hl'
      rw [hinj m hm m' hm' (le_antisymm hge hle)]

/-! ## Registered routes -/

/-- A call of `edge_plugin_host_add_route`. -/
abbrev RouteCall (P : Type*) := Option Bytes × Option P

/-- The route that a call asks for, unless its arguments are refused. -/
def callRoute : RouteCall P → Option (Bytes × P)
  | (some pfx, some plugin) => if pfx = [] ∨ pfx.length ≥ 128 then none else some (pfx, plugin)
  | _ => none

/-- The routes that a sequence of calls registers: those with good arguments, until the table is
full. -/
def registeredRoutes (calls : List (RouteCall P)) : List (Bytes × P) :=
  (calls.filterMap callRoute).take EDGE_PLUGIN_HOST_MAX_ROUTES

/-- A host after a sequence of calls. -/
def addRoutes (h : EdgePluginHost P) (calls : List (RouteCall P)) : EdgePluginHost P :=
  calls.foldl (fun h call => (edgePluginHostAddRoute h call.1 call.2).1) h

/-- One call: the table holds the good routes so far, as many as fit. -/
theorem routes_addRoute (h : EdgePluginHost P) (call : RouteCall P) (routes : List (Bytes × P))
    (hr : h.routes = routes.take EDGE_PLUGIN_HOST_MAX_ROUTES) :
    (edgePluginHostAddRoute h call.1 call.2).1.routes =
      (routes ++ (callRoute call).toList).take EDGE_PLUGIN_HOST_MAX_ROUTES := by
  have hlen : h.routes.length = min EDGE_PLUGIN_HOST_MAX_ROUTES routes.length := by
    rw [hr, List.length_take]
  rcases call with ⟨_ | pfx, plugin⟩
  · simpa [edgePluginHostAddRoute, callRoute] using hr
  rcases plugin with _ | plugin
  · simpa [edgePluginHostAddRoute, callRoute] using hr
  by_cases hempty : pfx = []
  · simpa [edgePluginHostAddRoute, callRoute, hempty] using hr
  by_cases hlong : pfx.length ≥ 128
  · simpa [edgePluginHostAddRoute, callRoute, hempty, hlong] using hr
  have hcall : callRoute (some pfx, some plugin) = some (pfx, plugin) :=
    if_neg (not_or.mpr ⟨hempty, hlong⟩)
  rw [edgePluginHostAddRoute, if_neg hempty, hcall, Option.toList_some]
  by_cases hfull : h.routes.length ≥ EDGE_PLUGIN_HOST_MAX_ROUTES
  · rw [if_pos hfull, hr, List.take_append_of_le_length (by omega)]
  · have hshort : routes.length < EDGE_PLUGIN_HOST_MAX_ROUTES := by omega
    rw [if_neg hfull, if_neg hlong, snprintf_of_fits (by omega), hr,
      List.take_of_length_le hshort.le, List.take_of_length_le]
    rw [List.length_append, List.length_singleton]
    omega

/-- A sequence of calls from a host without routes leaves the registered ones. -/
theorem routes_addRoutes {h : EdgePluginHost P} (hr : h.routes = []) (calls : List (RouteCall P)) :
    (addRoutes h calls).routes = registeredRoutes calls := by
  induction calls using List.reverseRecOn with
  | nil => exact hr
  | append_singleton calls call ih =>
    rw [addRoutes, List.foldl_append, registeredRoutes, List.filterMap_append]
    have hstep := routes_addRoute (addRoutes h calls) call _ ih
    rw [List.filterMap_cons, List.filterMap_nil]
    rcases hcall : callRoute call with _ | route
    · rw [hcall] at hstep
      exact hstep
    · rw [hcall] at hstep
      exact hstep

/-- A registered prefix is not empty. -/
theorem ne_nil_of_mem_registeredRoutes {calls : List (RouteCall P)} {r : Bytes × P}
    (h : r ∈ registeredRoutes calls) : r.1 ≠ [] := by
  obtain ⟨⟨pfx, plugin⟩, -, hcall⟩ := List.mem_filterMap.mp (List.mem_of_mem_take h)
  rcases pfx with _ | pfx
  · cases hcall
  rcases plugin with _ | plugin
  · cases hcall
  rw [callRoute] at hcall
  split_ifs at hcall with hbad
  obtain rfl := Option.some.inj hcall
  exact (not_or.mp hbad).1

/-! ## The match -/

/-- A prefix covers a path: the path ends behind it, goes on with a `/`, or the prefix ends in one. -/
def Covers (pfx path : Bytes) : Prop :=
  ∃ rest, path = pfx ++ rest ∧
    (rest = [] ∨ rest.head? = some (charByte '/') ∨ pfx.getLast? = some (charByte '/'))

theorem routeMatches_iff {pfx path : Bytes} : routeMatches pfx path = true ↔ Covers pfx path := by
  rw [routeMatches, Bool.and_eq_true, List.isPrefixOf_iff_prefix]
  constructor
  · rintro ⟨⟨rest, rfl⟩, hend⟩
    refine ⟨rest, rfl, ?_⟩
    rcases rest with _ | ⟨c, rest⟩
    · exact Or.inl rfl
    · right
      simpa using hend
  · rintro ⟨rest, rfl, hend⟩
    refine ⟨List.prefix_append _ _, ?_⟩
    rcases rest with _ | ⟨c, rest⟩
    · simp
    · simpa using hend

/-- Two prefixes of one path that are equally long are the same. -/
theorem Covers.eq_of_length {pfx pfx' path : Bytes} (h : Covers pfx path) (h' : Covers pfx' path)
    (hlen : pfx.length = pfx'.length) : pfx = pfx' := by
  obtain ⟨rest, rfl, -⟩ := h
  obtain ⟨rest', heq, -⟩ := h'
  exact (List.append_inj heq hlen).1

/-- The routes that the match looks at. -/
def coveringRoutes (routes : List (Bytes × P)) (path : Bytes) : List (Bytes × P) :=
  routes.filter fun r => r.1 ≠ [] ∧ routeMatches r.1 path = true

theorem coveringRoutes_concat (routes : List (Bytes × P)) (r : Bytes × P) (path : Bytes) :
    coveringRoutes (routes ++ [r]) path =
      if r.1 ≠ [] ∧ routeMatches r.1 path = true then coveringRoutes routes path ++ [r]
      else coveringRoutes routes path := by
  rw [coveringRoutes, List.filter_append, List.filter_cons, List.filter_nil]
  by_cases h : r.1 ≠ [] ∧ routeMatches r.1 path = true
  · rw [if_pos h, if_pos (decide_eq_true h), coveringRoutes]
  · rw [if_neg h, if_neg (by simpa using h), List.append_nil, coveringRoutes]

/-- The longest covering route, the last of several. -/
def longestRoute (routes : List (Bytes × P)) (path : Bytes) : Option (Bytes × P) :=
  (coveringRoutes routes path).reverse.argmax fun r => r.1.length

theorem longestRoute_concat (routes : List (Bytes × P)) (r : Bytes × P) (path : Bytes) :
    longestRoute (routes ++ [r]) path =
      if r.1 ≠ [] ∧ routeMatches r.1 path = true then
        match longestRoute routes path with
        | none => some r
        | some best => if r.1.length < best.1.length then some best else some r
      else longestRoute routes path := by
  rw [longestRoute, coveringRoutes_concat]
  by_cases h : r.1 ≠ [] ∧ routeMatches r.1 path = true
  · rw [if_pos h, if_pos h, List.reverse_append, List.reverse_singleton, List.singleton_append,
      List.argmax_cons, longestRoute]
    cases (coveringRoutes routes path).reverse.argmax fun r => r.1.length <;> rfl
  · rw [if_neg h, if_neg h, longestRoute]

/-- The pass of `edge_plugin_host_match` takes the last of the longest covering routes. -/
theorem match_eq_longestRoute (h : EdgePluginHost P) (path : Bytes) :
    edgePluginHostMatch h path = (longestRoute h.routes path).map Prod.snd := by
  suffices hfold : h.routes.foldl (fun (best : Option P × ℕ) route =>
      if route.1 = [] then best
      else if routeMatches route.1 path then
        if route.1.length ≥ best.2 then (some route.2, route.1.length) else best
      else best) (none, 0) =
      ((longestRoute h.routes path).map Prod.snd,
        ((longestRoute h.routes path).map fun r => r.1.length).getD 0) by
    rw [edgePluginHostMatch, hfold]
  induction h.routes using List.reverseRecOn with
  | nil => rfl
  | append_singleton routes r ih =>
    rw [List.foldl_append, ih, List.foldl_cons, List.foldl_nil, longestRoute_concat]
    by_cases hne : r.1 = []
    · simp [hne]
    by_cases hcov : routeMatches r.1 path = true
    · rcases longestRoute routes path with _ | best
      · simp [hne, hcov]
      · by_cases hlt : r.1.length < best.1.length
        · simp [hne, hcov, hlt]
        · simp [hne, hcov, hlt, not_lt.mp hlt]
    · simp [hne, hcov]

/-- A route that owns a path: its prefix is the longest one that covers the path, and no route after
it has the same prefix. -/
def Owns (routes : List (Bytes × P)) (path pfx : Bytes) (plugin : P) : Prop :=
  ∃ before after, routes = before ++ (pfx, plugin) :: after ∧ Covers pfx path ∧
    (∀ r ∈ routes, Covers r.1 path → r.1.length ≤ pfx.length) ∧ ∀ r ∈ after, r.1 ≠ pfx

theorem mem_coveringRoutes {routes : List (Bytes × P)} (hne : ∀ r ∈ routes, r.1 ≠ [])
    {path : Bytes} {r : Bytes × P} :
    r ∈ coveringRoutes routes path ↔ r ∈ routes ∧ Covers r.1 path := by
  rw [coveringRoutes, List.mem_filter, decide_eq_true_iff, routeMatches_iff]
  exact ⟨fun h => ⟨h.1, h.2.2⟩, fun h => ⟨h.1, hne r h.1, h.2⟩⟩

/-- The longest route owns the path. -/
theorem owns_of_longestRoute {routes : List (Bytes × P)} (hne : ∀ r ∈ routes, r.1 ≠ [])
    {path : Bytes} {r : Bytes × P} (h : longestRoute routes path = some r) :
    Owns routes path r.1 r.2 := by
  have hmem := (mem_coveringRoutes hne).mp (List.mem_reverse.mp (List.argmax_mem h))
  obtain ⟨xs, ys, hsplit, hlt⟩ := argmax_split h
  have hcov : coveringRoutes routes path = ys.reverse ++ r :: xs.reverse := by
    rw [← List.reverse_reverse (coveringRoutes routes path), hsplit, List.reverse_append,
      List.reverse_cons, List.append_assoc, List.singleton_append]
  obtain ⟨before, tail, rfl, -, htail⟩ := List.filter_eq_append_iff.mp hcov
  obtain ⟨skipped, after, rfl, -, -, hafter⟩ := List.filter_eq_cons_iff.mp htail
  refine ⟨before ++ skipped, after, by rw [List.append_assoc], hmem.2, ?_, ?_⟩
  · intro r' hr' hcov'
    have hin := List.mem_reverse.mpr ((mem_coveringRoutes hne).mpr ⟨hr', hcov'⟩)
    exact List.le_of_mem_argmax (f := fun r : Bytes × P => r.1.length) hin h
  · intro r' hr' heq
    -- a later route with the prefix would cover the path as well, and be taken in its place
    have hkept : r' ∈ xs.reverse := by
      rw [← hafter, List.mem_filter, decide_eq_true_iff, routeMatches_iff, heq]
      exact ⟨hr', hne r hmem.1, hmem.2⟩
    exact absurd (hlt r' (List.mem_reverse.mp hkept)) (by rw [heq]; exact lt_irrefl _)

/-- Without a longest route nothing covers the path. -/
theorem longestRoute_eq_none {routes : List (Bytes × P)} (hne : ∀ r ∈ routes, r.1 ≠ [])
    {path : Bytes} : longestRoute routes path = none ↔ ∀ r ∈ routes, ¬Covers r.1 path := by
  rw [longestRoute, List.argmax_eq_none, List.reverse_eq_nil_iff, List.eq_nil_iff_forall_not_mem]
  refine forall_congr' fun r => ?_
  rw [mem_coveringRoutes hne, not_and]

/-- The route with a prefix behind which no other has it is the last one. -/
theorem eq_of_last {pfx : Bytes} {plugin plugin' : P} {mid after after' : List (Bytes × P)}
    (h : (pfx, plugin) :: after = mid ++ (pfx, plugin') :: after') (hlast : ∀ r ∈ after, r.1 ≠ pfx) :
    plugin = plugin' := by
  cases mid with
  | nil => exact (Prod.mk.inj (List.cons.inj h).1).2
  | cons r mid =>
    have hin : (pfx, plugin') ∈ after := by
      rw [(List.cons.inj h).2]
      exact List.mem_append_right mid List.mem_cons_self
    exact absurd rfl (hlast _ hin)

/-- The owner of a path is determined by the routes. -/
theorem Owns.unique {routes : List (Bytes × P)} {path pfx pfx' : Bytes} {plugin plugin' : P}
    (h : Owns routes path pfx plugin) (h' : Owns routes path pfx' plugin') :
    pfx = pfx' ∧ plugin = plugin' := by
  obtain ⟨before, after, hr, hcov, hmax, hlast⟩ := h
  obtain ⟨before', after', hr', hcov', hmax', hlast'⟩ := h'
  have hle := hmax (pfx', plugin') (by rw [hr']; simp) hcov'
  have hge := hmax' (pfx, plugin) (by rw [hr]; simp) hcov
  obtain rfl := hcov.eq_of_length hcov' (le_antisymm hge hle)
  refine ⟨rfl, ?_⟩
  rw [hr, List.append_eq_append_iff] at hr'
  rcases hr' with ⟨mid, -, hmid⟩ | ⟨mid, -, hmid⟩
  · exact eq_of_last hmid hlast
  · exact (eq_of_last hmid hlast').symm

/-- Distinct prefixes: in any order the same route is the longest one. -/
theorem longestRoute_perm {routes routes' : List (Bytes × P)} (hperm : routes.Perm routes')
    (hdistinct : (routes.map Prod.fst).Nodup) (path : Bytes) :
    longestRoute routes path = longestRoute routes' path := by
  have hcover : ∀ r ∈ (coveringRoutes routes path).reverse, r ∈ routes ∧ Covers r.1 path := by
    intro r hr
    obtain ⟨hmem, hcov⟩ := List.mem_filter.mp (List.mem_reverse.mp hr)
    exact ⟨hmem, routeMatches_iff.mp (decide_eq_true_iff.mp hcov).2⟩
  have hrev : (coveringRoutes routes path).reverse.Perm (coveringRoutes routes' path).reverse :=
    (List.reverse_perm _).trans ((hperm.filter _).trans (List.reverse_perm _).symm)
  refine argmax_perm hrev fun r hr r' hr' hlen => ?_
  obtain ⟨hmem, hcov⟩ := hcover r hr
  obtain ⟨hmem', hcov'⟩ := hcover r' hr'
  exact List.inj_on_of_nodup_map hdistinct hmem hmem' (hcov.eq_of_length hcov' hlen)

/-- **The match.** It returns the plugin of the route that owns the path, and NULL when no registered
prefix covers it; with distinct prefixes the order of registration does not matter. -/
theorem match_longestPrefix (h : EdgePluginHost P) (hr : h.routes = []) (calls : List (RouteCall P))
    (path : Bytes) :
    (∀ plugin, edgePluginHostMatch (addRoutes h calls) path = some plugin ↔
      ∃ pfx, Owns (registeredRoutes calls) path pfx plugin) ∧
    (edgePluginHostMatch (addRoutes h calls) path = none ↔
      ∀ r ∈ registeredRoutes calls, ¬Covers r.1 path) ∧
    (((registeredRoutes calls).map Prod.fst).Nodup → ∀ calls' : List (RouteCall P),
      (registeredRoutes calls).Perm (registeredRoutes calls') →
      edgePluginHostMatch (addRoutes h calls') path =
        edgePluginHostMatch (addRoutes h calls) path) := by
  have hne : ∀ r ∈ registeredRoutes calls, r.1 ≠ [] := fun r => ne_nil_of_mem_registeredRoutes
  simp only [match_eq_longestRoute, routes_addRoutes hr]
  refine ⟨fun plugin => ?_, ?_, fun hdistinct calls' hperm => ?_⟩
  · constructor
    · intro hmatch
      obtain ⟨r, hlongest, rfl⟩ := Option.map_eq_some_iff.mp hmatch
      exact ⟨r.1, owns_of_longestRoute hne hlongest⟩
    · rintro ⟨pfx, howns⟩
      rcases hlongest : longestRoute (registeredRoutes calls) path with _ | r
      · obtain ⟨before, after, hsplit, hcov, -, -⟩ := howns
        exact absurd hcov ((longestRoute_eq_none hne).mp hlongest (pfx, plugin)
          (by rw [hsplit]; simp))
      · rw [Option.map_some, ((owns_of_longestRoute hne hlongest).unique howns).2]
  · rw [Option.map_eq_none_iff, longestRoute_eq_none hne]
  · rw [longestRoute_perm hperm hdistinct]

/-- Two nested prefixes. -/
def nestedCalls : List (RouteCall ℕ) :=
  [(some (bytes "/v1/chat"), some 7), (some (bytes "/v1"), some 5)]

theorem registeredRoutes_nestedCalls :
    registeredRoutes nestedCalls = [(bytes "/v1/chat", 7), (bytes "/v1", 5)] := by
  decide +kernel

/-- The longer one of two nested prefixes is taken in both orders. -/
theorem match_longestPrefix_nested :
    edgePluginHostMatch (addRoutes (edgePluginHostCreate 0 none) nestedCalls)
        (bytes "/v1/chat/x") = some 7 ∧
      edgePluginHostMatch (addRoutes (edgePluginHostCreate 0 none) nestedCalls.reverse)
        (bytes "/v1/chat/x") = some 7 := by
  obtain ⟨hsome, -, horder⟩ :=
    match_longestPrefix (edgePluginHostCreate 0 none) rfl nestedCalls (bytes "/v1/chat/x")
  have howns : Owns (registeredRoutes nestedCalls) (bytes "/v1/chat/x") (bytes "/v1/chat") 7 := by
    rw [registeredRoutes_nestedCalls]
    refine ⟨[], [(bytes "/v1", 5)], rfl, ⟨bytes "/x", by decide⟩, ?_, by decide⟩
    intro r hr _
    rcases List.mem_pair.mp hr with rfl | rfl <;> decide
  have hmatch := (hsome 7).mpr ⟨_, howns⟩
  refine ⟨hmatch, (horder (by decide +kernel) nestedCalls.reverse ?_).trans hmatch⟩
  have hswap : registeredRoutes nestedCalls.reverse =
      [(bytes "/v1", 5), (bytes "/v1/chat", 7)] := by decide +kernel
  rw [registeredRoutes_nestedCalls, hswap]
  exact List.Perm.swap _ _ _

end Edgehost
