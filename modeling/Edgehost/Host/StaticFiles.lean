import Edgehost.Common.CString

/-!
# Static files (`static_files.c`)

The file that a URL names under a document root. The file system is a parameter: what `stat` and
`fread` find under a path.

* `edgeStaticResolve_under` — the path found lies under the root.
-/

namespace Edgehost

def EDGE_STATIC_MAX_FILE : ℕ := 64 * 1024

/-- What the file system holds under a path: a directory, a regular file with its size and what
reading it yields (`none` where it cannot be opened), or something else. -/
inductive FileNode where
  | dir
  | regular (size : ℕ) (content : Option Bytes)
  | other
  deriving DecidableEq

/-- The file system: the node under a path, if there is one. -/
abbrev Files := Bytes → Option FileNode

/-! ## Resolving a URL -/

def slash : UInt8 := 47

/-- The path of a URL: no query and no fragment. -/
def urlPath (url : Bytes) : Bytes := url.takeWhile fun c => c ≠ charByte '?' && c ≠ charByte '#'

/-- A byte that no component may hold. -/
def isUnsafeByte (c : UInt8) : Bool := c < 0x20 || c = charByte '\\' || c = 0x7f

/-- A component that is refused. -/
def isUnsafeComponent (comp : Bytes) : Bool :=
  comp = [charByte '.'] || comp = [charByte '.', charByte '.'] || comp.any isUnsafeByte

/-- Add a component to the clean path, if its buffer of 512 bytes has room. -/
def addComponent (clean comp : Bytes) : Option Bytes :=
  if clean ≠ [] ∧ clean.length + 1 ≥ 512 then none
  else
    let clean := if clean = [] then [] else clean ++ [slash]
    if clean.length + comp.length ≥ 512 then none else some (clean ++ comp)

/-- The walk over the components, skipping the empty ones. -/
def walkComponents : Bytes → List Bytes → Option Bytes
  | clean, [] => some clean
  | clean, [] :: comps => walkComponents clean comps
  | clean, comp :: comps =>
    if isUnsafeComponent comp then none
    else
      match addComponent clean comp with
      | none => none
      | some clean => walkComponents clean comps

/-- The relative path that a URL names; the empty one is that of the default document. -/
def relativePath (url : Bytes) : Option Bytes :=
  let rel := urlPath url
  if rel.length ≥ 512 then none
  else
    match walkComponents [] (rel.splitOn slash) with
    | none => none
    | some [] => some (bytes "index.html")
    | some clean => some clean

/-- `edge_static_resolve` into a buffer of `outSz` bytes. -/
def edgeStaticResolve (root url : Bytes) (outSz : ℕ) : Option Bytes :=
  if root = [] ∨ outSz < 4 then none
  else
    match relativePath url with
    | none => none
    | some rel =>
      if root.length + 1 + rel.length + 1 > outSz then none
      else if root.getLast? = some slash then some (root ++ rel)
      else some (root ++ slash :: rel)

/-! ## Reading a file -/

/-- The table of content types. -/
def contentTypes : List (String × String) :=
  [("html", "text/html; charset=utf-8"), ("htm", "text/html; charset=utf-8"),
    ("js", "application/javascript; charset=utf-8"),
    ("mjs", "application/javascript; charset=utf-8"), ("css", "text/css; charset=utf-8"),
    ("json", "application/json"), ("svg", "image/svg+xml"), ("png", "image/png"),
    ("jpg", "image/jpeg"), ("jpeg", "image/jpeg"), ("wasm", "application/wasm"),
    ("wmap", "application/octet-stream"), ("fmap", "application/octet-stream"),
    ("txt", "text/plain; charset=utf-8"), ("map", "text/plain; charset=utf-8")]

/-- `edge_static_content_type`. -/
def edgeStaticContentType (path : Bytes) (ctypeSz : ℕ) : Bytes :=
  let ext := (path.reverse.takeWhile (· ≠ charByte '.')).reverse
  match contentTypes.find? fun p => charByte '.' ∈ path ∧ bytes p.1 = ext with
  | some p => snprintf ctypeSz (bytes p.2)
  | none => snprintf ctypeSz (bytes "application/octet-stream")

/-- `edge_static_read_file`. -/
def edgeStaticReadFile (files : Files) (path : Bytes) (maxBytes : ℕ) : Option Bytes :=
  if maxBytes = 0 then none
  else
    match files path with
    | some (.regular size content) =>
      if size > maxBytes then none
      else
        match content with
        | none => none
        | some data => if (data.take size).length ≠ size then none else some (data.take size)
    | _ => none

/-- The path of the default document of a directory. -/
def directoryIndex (fspath : Bytes) : Option Bytes :=
  if fspath.length + 12 ≥ 1024 then none
  else
    let dir := if fspath.getLast? = some slash then fspath else fspath ++ [slash]
    some (dir ++ bytes "index.html")

/-- The file to read: for a directory its default document. -/
def documentPath (files : Files) (fspath : Bytes) : Option Bytes :=
  if files fspath = some .dir then directoryIndex fspath else some fspath

/-- `edge_static_load`: the content and its type. -/
def edgeStaticLoad (files : Files) (root url : Bytes) (maxBytes ctypeSz : ℕ) :
    Option (Bytes × Bytes) := do
  let fspath ← edgeStaticResolve root url 1024
  let fspath ← documentPath files fspath
  let body ← edgeStaticReadFile files fspath maxBytes
  some (body, edgeStaticContentType fspath ctypeSz)

/-! ## Below the root -/

/-- A path below a directory. -/
def UnderRoot (root path : Bytes) : Prop :=
  (if root.getLast? = some slash then root else root ++ [slash]) <+: path

theorem edgeStaticResolve_under {root url path : Bytes} {outSz : ℕ}
    (h : edgeStaticResolve root url outSz = some path) : UnderRoot root path := by
  rw [edgeStaticResolve, Option.ite_none_left_eq_some] at h
  cases hrel : relativePath url with
  | none => exact nomatch hrel ▸ h.2
  | some rel =>
    have hpath := (Option.ite_none_left_eq_some.mp (hrel ▸ h.2)).2
    unfold UnderRoot
    by_cases hslash : root.getLast? = some slash
    · rw [if_pos hslash] at hpath ⊢
      exact ⟨rel, Option.some.inj hpath⟩
    · rw [if_neg hslash] at hpath ⊢
      exact ⟨rel, by rw [← Option.some.inj hpath, List.append_assoc]; rfl⟩

theorem directoryIndex_under {root path index : Bytes} (hpath : UnderRoot root path)
    (h : directoryIndex path = some index) : UnderRoot root index := by
  obtain rfl := Option.some.inj (Option.ite_none_left_eq_some.mp h).2
  refine hpath.trans (List.IsPrefix.trans ?_ (List.prefix_append _ _))
  by_cases hslash : path.getLast? = some slash
  · rw [if_pos hslash]
  · rw [if_neg hslash]
    exact List.prefix_append _ _

/-- **What is loaded depends on the files below the root only.** -/
theorem edgeStaticLoad_congr {files files' : Files} {root : Bytes}
    (h : ∀ path, UnderRoot root path → files path = files' path) (url : Bytes)
    (maxBytes ctypeSz : ℕ) :
    edgeStaticLoad files root url maxBytes ctypeSz = edgeStaticLoad files' root url maxBytes ctypeSz := by
  unfold edgeStaticLoad
  cases hres : edgeStaticResolve root url 1024 with
  | none => rfl
  | some fspath =>
    have hunder := edgeStaticResolve_under hres
    have hread : ∀ path, UnderRoot root path →
        edgeStaticReadFile files path maxBytes = edgeStaticReadFile files' path maxBytes :=
      fun path hp => by rw [edgeStaticReadFile, edgeStaticReadFile, h path hp]
    rw [Option.bind_eq_bind, Option.bind_some, Option.bind_some, documentPath, documentPath,
      h fspath hunder]
    split_ifs
    · cases hidx : directoryIndex fspath with
      | none => rfl
      | some index => exact congrArg (Option.bind · _) (hread index (directoryIndex_under hunder hidx))
    · exact congrArg (Option.bind · _) (hread fspath hunder)

end Edgehost
