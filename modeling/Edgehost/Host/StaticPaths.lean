import Edgehost.Host.StaticFiles

/-!
# Paths below the document root

The walk copies the components of a URL path one by one, and refuses those that would leave the root.

* `walkComponents_components` — the clean path has the components that are not empty.
* `edgeStaticResolve_components` — the shape of every path that is found, and what is never found.
-/

namespace Edgehost

/-! ## Components -/

/-- The components of a path, between its slashes. -/
def pathComponents (path : Bytes) : List Bytes := path.splitOn slash

/-- The components that a URL names: the ones that are not empty, in front of a query or a fragment. -/
def urlComponents (url : Bytes) : List Bytes := (pathComponents (urlPath url)).filter (· ≠ [])

/-- The components of the file: the default document where the URL names none. -/
def fileComponents (url : Bytes) : List Bytes :=
  if urlComponents url = [] then [bytes "index.html"] else urlComponents url

/-- A component that names an entry of its directory: not the directory itself, not the one above, and
no byte with another meaning. -/
structure SafeComponent (comp : Bytes) : Prop where
  ne_nil : comp ≠ []
  ne_dot : comp ≠ bytes "."
  ne_dotdot : comp ≠ bytes ".."
  plain : ∀ c ∈ comp, 0x20 ≤ c ∧ c ≠ charByte '\\' ∧ c ≠ 0x7f

/-- Where a relative path leads from a directory, by its components alone. -/
def lexicalPath (dir : List Bytes) (comps : List Bytes) : List Bytes :=
  comps.foldl (fun dir comp =>
    if comp = bytes "." then dir else if comp = bytes ".." then dir.dropLast else dir ++ [comp]) dir

theorem lexicalPath_eq {comps : List Bytes} (h : ∀ comp ∈ comps, SafeComponent comp)
    (dir : List Bytes) : lexicalPath dir comps = dir ++ comps := by
  induction comps generalizing dir with
  | nil => exact (List.append_nil dir).symm
  | cons comp comps ih =>
    obtain ⟨hcomp, hcomps⟩ := List.forall_mem_cons.mp h
    have hstep : lexicalPath dir (comp :: comps) = lexicalPath (dir ++ [comp]) comps := by
      rw [lexicalPath, List.foldl_cons, if_neg hcomp.ne_dot, if_neg hcomp.ne_dotdot, lexicalPath]
    rw [hstep, ih hcomps, List.append_assoc, List.singleton_append]

theorem safeComponent_iff (comp : Bytes) :
    SafeComponent comp ↔ comp ≠ [] ∧ isUnsafeComponent comp = false := by
  have hdot : bytes "." = [charByte '.'] := by decide
  have hdotdot : bytes ".." = [charByte '.', charByte '.'] := by decide
  have hsafe : isUnsafeComponent comp = false ↔
      comp ≠ bytes "." ∧ comp ≠ bytes ".." ∧
        ∀ c ∈ comp, 0x20 ≤ c ∧ c ≠ charByte '\\' ∧ c ≠ 0x7f := by
    simp [isUnsafeComponent, isUnsafeByte, hdot, hdotdot, and_assoc]
  rw [hsafe]
  exact ⟨fun h => ⟨h.ne_nil, h.ne_dot, h.ne_dotdot, h.plain⟩, fun h => ⟨h.1, h.2.1, h.2.2.1, h.2.2.2⟩⟩

theorem safeComponent_index : SafeComponent (bytes "index.html") := by
  rw [safeComponent_iff]
  decide

/-! ## Joining and splitting -/

/-- A path from its components. -/
def joinSlash (comps : List Bytes) : Bytes := [slash].intercalate comps

theorem joinSlash_concat {comps : List Bytes} (hne : comps ≠ []) (comp : Bytes) :
    joinSlash (comps ++ [comp]) = joinSlash comps ++ slash :: comp := by
  induction comps with
  | nil => exact absurd rfl hne
  | cons c comps ih =>
    cases comps with
    | nil => simp [joinSlash]
    | cons d comps =>
      have htail := ih (List.cons_ne_nil d comps)
      rw [joinSlash] at htail ⊢
      rw [List.cons_append, List.intercalate_cons_of_ne_nil (by simp), htail, joinSlash, joinSlash,
        List.intercalate_cons_of_ne_nil (List.cons_ne_nil d comps), List.append_assoc,
        List.append_assoc, List.append_assoc]

theorem joinSlash_eq_nil {comps : List Bytes} (h : ∀ comp ∈ comps, comp ≠ []) :
    joinSlash comps = [] ↔ comps = [] := by
  refine ⟨fun hnil => ?_, fun hnil => hnil ▸ rfl⟩
  cases comps with
  | nil => rfl
  | cons c comps =>
    have hc := (List.forall_mem_cons.mp h).1
    cases comps with
    | nil => exact absurd hnil (by simpa [joinSlash] using hc)
    | cons d comps =>
      rw [joinSlash, List.intercalate_cons_cons] at hnil
      exact absurd (List.append_eq_nil_iff.mp (List.append_eq_nil_iff.mp hnil).1).1 hc

/-- No component has a slash. -/
theorem slash_not_mem {path comp : Bytes} (h : comp ∈ pathComponents path) : slash ∉ comp := by
  induction path generalizing comp with
  | nil =>
    rw [pathComponents, List.splitOn_nil, List.mem_singleton] at h
    rw [h]
    exact List.not_mem_nil
  | cons c path ih =>
    rw [pathComponents, List.splitOn_cons_eq_if_modifyHead, ← pathComponents] at h
    by_cases hc : c = slash
    · rw [if_pos (by simpa using hc), List.mem_cons] at h
      rcases h with rfl | h
      · exact List.not_mem_nil
      · exact ih h
    · rw [if_neg (by simpa using hc)] at h
      obtain ⟨d, ds, hds⟩ := List.exists_cons_of_ne_nil (List.splitOn_ne_nil slash path)
      rw [← pathComponents] at hds
      rw [hds, List.modifyHead_cons, List.mem_cons] at h
      rcases h with rfl | h
      · rw [List.mem_cons, not_or]
        exact ⟨Ne.symm hc, ih (hds ▸ List.mem_cons_self)⟩
      · exact ih (hds ▸ List.mem_cons_of_mem d h)

/-! ## The walk -/

theorem addComponent_eq_some {done : List Bytes} {comp clean : Bytes}
    (hdone : ∀ c ∈ done, c ≠ []) (h : addComponent (joinSlash done) comp = some clean) :
    clean = joinSlash (done ++ [comp]) := by
  obtain ⟨-, h⟩ := Option.ite_none_left_eq_some.mp h
  obtain ⟨-, h⟩ := Option.ite_none_left_eq_some.mp h
  rw [← Option.some.inj h]
  by_cases hnil : done = []
  · subst hnil
    simp [joinSlash]
  · rw [if_neg ((joinSlash_eq_nil hdone).not.mpr hnil), joinSlash_concat hnil, List.append_assoc,
      List.singleton_append]

/-- **The walk** copies the components that are not empty, and has found each of them safe. -/
theorem walkComponents_components {comps done : List Bytes} {out : Bytes}
    (hdone : ∀ c ∈ done, SafeComponent c) (h : walkComponents (joinSlash done) comps = some out) :
    out = joinSlash (done ++ comps.filter (· ≠ [])) ∧
      ∀ c ∈ done ++ comps.filter (· ≠ []), SafeComponent c := by
  induction comps generalizing done with
  | nil =>
    rw [List.filter_nil, List.append_nil]
    exact ⟨(Option.some.inj h).symm, hdone⟩
  | cons comp comps ih =>
    by_cases hempty : comp = []
    · subst hempty
      rw [List.filter_cons_of_neg (by simp)]
      exact ih hdone h
    · obtain ⟨b, bs, rfl⟩ := List.exists_cons_of_ne_nil hempty
      simp only [walkComponents] at h
      obtain ⟨hsafe, h⟩ := Option.ite_none_left_eq_some.mp h
      have hcomp : SafeComponent (b :: bs) :=
        (safeComponent_iff _).mpr ⟨hempty, by simpa using hsafe⟩
      cases hadd : addComponent (joinSlash done) (b :: bs) with
      | none =>
        rw [hadd] at h
        cases h
      | some clean =>
        have hdone' : ∀ c ∈ done ++ [b :: bs], SafeComponent c :=
          List.forall_mem_append.mpr ⟨hdone, List.forall_mem_singleton.mpr hcomp⟩
        simp only [hadd, addComponent_eq_some (fun c hc => (hdone c hc).ne_nil) hadd] at h
        rw [List.filter_cons_of_pos (by simp), ← List.singleton_append,
          ← List.append_assoc]
        exact ih hdone' h

/-- The relative path has the components of the file, and all of them are safe. -/
theorem relativePath_components {url rel : Bytes} (h : relativePath url = some rel) :
    pathComponents rel = fileComponents url ∧ (∀ c ∈ fileComponents url, SafeComponent c) ∧
      ∀ c ∈ urlComponents url, SafeComponent c := by
  obtain ⟨-, h⟩ := Option.ite_none_left_eq_some.mp h
  cases hwalk : walkComponents [] ((urlPath url).splitOn slash) with
  | none =>
    rw [hwalk] at h
    cases h
  | some clean =>
    obtain ⟨hclean, hsafe⟩ := @walkComponents_components _ [] _ (List.forall_mem_nil _) hwalk
    rw [List.nil_append] at hclean hsafe
    have hnil : clean = [] ↔ urlComponents url = [] := by
      rw [hclean]
      exact joinSlash_eq_nil fun c hc => (hsafe c hc).ne_nil
    rw [fileComponents]
    by_cases hnone : urlComponents url = []
    · obtain rfl := hnil.mpr hnone
      rw [hwalk] at h
      obtain rfl := Option.some.inj h
      rw [if_pos hnone]
      exact ⟨by decide, List.forall_mem_singleton.mpr safeComponent_index, hsafe⟩
    · obtain ⟨b, bs, hcons⟩ := List.exists_cons_of_ne_nil (hnil.not.mpr hnone)
      rw [hwalk, hcons] at h
      obtain rfl := Option.some.inj h
      rw [if_neg hnone, ← hcons, hclean]
      refine ⟨List.splitOn_intercalate slash (fun c hc => ?_) hnone, hsafe, hsafe⟩
      exact slash_not_mem (List.mem_of_mem_filter hc)

/-! ## The path that is found -/

/-- What a resolved path looks like: the root, a slash unless the root ends in one, and a relative path
whose components are those of the file. From any directory they lead below it. -/
structure ResolvedPath (root url path : Bytes) : Prop where
  shape : ∃ rel, path = (if root.getLast? = some slash then root else root ++ [slash]) ++ rel ∧
    rel ≠ [] ∧ pathComponents rel = fileComponents url
  safe : ∀ comp ∈ fileComponents url, SafeComponent comp
  below : ∀ dir n, dir <+: lexicalPath dir ((fileComponents url).take n)

/-- **Traversal safety.** Every path that is found has this shape, and nothing is found for a URL with a
component `.` or `..`. -/
theorem edgeStaticResolve_components (root url : Bytes) (outSz : ℕ) :
    (∀ path, edgeStaticResolve root url outSz = some path → ResolvedPath root url path) ∧
      ((bytes "." ∈ urlComponents url ∨ bytes ".." ∈ urlComponents url) →
        edgeStaticResolve root url outSz = none) := by
  have hfound : ∀ path, edgeStaticResolve root url outSz = some path → ∃ rel,
      relativePath url = some rel ∧
        path = (if root.getLast? = some slash then root else root ++ [slash]) ++ rel := by
    intro path h
    obtain ⟨-, h⟩ := Option.ite_none_left_eq_some.mp h
    cases hrel : relativePath url with
    | none =>
      rw [hrel] at h
      cases h
    | some rel =>
      rw [hrel] at h
      obtain ⟨-, h⟩ := Option.ite_none_left_eq_some.mp h
      refine ⟨rel, rfl, ?_⟩
      split_ifs at h ⊢ <;> simp [← Option.some.inj h]
  constructor
  · intro path h
    obtain ⟨rel, hrel, hpath⟩ := hfound path h
    obtain ⟨hcomps, hsafe, -⟩ := relativePath_components hrel
    refine ⟨⟨rel, hpath, ?_, hcomps⟩, hsafe, fun dir n => ?_⟩
    · rintro rfl
      -- The empty path has one component, which is empty.
      exact (hsafe [] (hcomps ▸ List.mem_singleton_self _)).ne_nil rfl
    · rw [lexicalPath_eq fun c hc => hsafe c (List.mem_of_mem_take hc)]
      exact List.prefix_append _ _
  · intro hdots
    by_contra hsome
    obtain ⟨path, hpath⟩ := Option.ne_none_iff_exists'.mp hsome
    obtain ⟨rel, hrel, -⟩ := hfound path hpath
    obtain ⟨-, -, hsafe⟩ := relativePath_components hrel
    rcases hdots with hdot | hdotdot
    · exact (hsafe _ hdot).ne_dot rfl
    · exact (hsafe _ hdotdot).ne_dotdot rfl

theorem edgeStaticResolve_components_app :
    (edgeStaticResolve (bytes "www") (bytes "//app//x.js?v=1") 64 = some (bytes "www/app/x.js") ∧
      ResolvedPath (bytes "www") (bytes "//app//x.js?v=1") (bytes "www/app/x.js")) ∧
    bytes ".." ∈ urlComponents (bytes "/a/../b") ∧
      edgeStaticResolve (bytes "www") (bytes "/a/../b") 64 = none := by
  have hfound : edgeStaticResolve (bytes "www") (bytes "//app//x.js?v=1") 64
      = some (bytes "www/app/x.js") := by decide +kernel
  have hdotdot : bytes ".." ∈ urlComponents (bytes "/a/../b") := by decide +kernel
  exact ⟨⟨hfound, (edgeStaticResolve_components _ _ _).1 _ hfound⟩, hdotdot,
    (edgeStaticResolve_components _ _ _).2 (Or.inr hdotdot)⟩

end Edgehost
