import Edgehost.Host.StateReplies
import Edgehost.Host.StreamLaws

/-!
# A put over many feeds

A request comes in pieces, and the network decides where they end. The bytes are collected and go to the
parser as they come; where the body begins and whether it is whole is found again for every piece. All that
the parser reports of a piece is handled before the request is answered, so the head of another request, read
from bytes behind the body, replaces the method and the path of this one when it comes in the same piece.

* `Waiting` and `Ready`: the connection before and behind the last byte of the headers.
* `put_any_split`: while the parser reports one head, the answer, the store and the hub do not depend on the
  pieces.
-/

namespace Edgehost

variable {η P υ : Type*}

/-! ## Header blocks -/

/-- A header block: lines that end in CRLF, none of them empty or with a LF of its own, and an empty
one. -/
def IsHeaderBlock (head : Bytes) : Prop :=
  ∃ lines : List Bytes, lines ≠ [] ∧ (∀ line ∈ lines, line ≠ [] ∧ 10 ∉ line) ∧
    head = lines.flatMap (· ++ crlf) ++ crlf

/-- Where the headers do not end here, they end later. -/
theorem findBodyOff_cons {c : UInt8} {s : Bytes} (hlen : 4 ≤ (c :: s).length)
    (hend : ¬crlf2 <+: c :: s) (hlf : ¬[10, 10] <+: c :: s) :
    findBodyOff (c :: s) = (findBodyOff s).map (· + 1) := by
  rw [findBodyOff, if_neg (by omega), if_neg (by rwa [List.isPrefixOf_iff_prefix]),
    if_neg (by rwa [List.isPrefixOf_iff_prefix])]

theorem not_prefix_of_ne {a c : UInt8} {x s : Bytes} (h : a ≠ c) : ¬a :: x <+: c :: s := fun hpre =>
  h (List.cons_prefix_cons.mp hpre).1

/-- Within a line the headers do not end. -/
theorem findBodyOff_line {line : Bytes} (hline : 10 ∉ line) {s : Bytes} (hlen : 2 ≤ s.length) :
    findBodyOff (line ++ 13 :: 10 :: s) = (findBodyOff (13 :: 10 :: s)).map (· + line.length) := by
  induction line with
  | nil => exact (Option.map_id' (x := findBodyOff (13 :: 10 :: s))).symm
  | cons c line ih =>
    have hc : c ≠ 10 := fun h => hline (h ▸ List.mem_cons_self)
    have hrest : 10 ∉ line := fun h => hline (List.mem_cons_of_mem c h)
    have hend : ¬crlf2 <+: c :: (line ++ 13 :: 10 :: s) := by
      intro hpre
      obtain ⟨-, hnext⟩ := List.cons_prefix_cons.mp hpre
      cases line with
      | nil => exact not_prefix_of_ne (by decide) hnext
      | cons d line =>
        refine not_prefix_of_ne (fun h : 10 = d => hrest ?_) hnext
        exact h ▸ List.mem_cons_self
    rw [List.cons_append, findBodyOff_cons (by simp only [List.length_cons, List.length_append]; omega)
      hend (not_prefix_of_ne hc.symm), ih hrest, Option.map_map]
    refine congrArg (Option.map · _) (funext fun n => ?_)
    simp only [Function.comp_apply, List.length_cons]
    omega

/-- Between two lines the headers do not end. -/
theorem findBodyOff_between {c : UInt8} {s : Bytes} (hc : c ≠ 10) (hs : ¬[10] <+: s)
    (hlen : 2 ≤ s.length) : findBodyOff (13 :: 10 :: c :: s) = (findBodyOff (c :: s)).map (· + 2) := by
  have hend : ¬crlf2 <+: 13 :: 10 :: c :: s := by
    intro hpre
    obtain ⟨-, hpre⟩ := List.cons_prefix_cons.mp hpre
    obtain ⟨-, hpre⟩ := List.cons_prefix_cons.mp hpre
    exact hs (List.cons_prefix_cons.mp hpre).2
  have hlf : ¬[10, 10] <+: 10 :: c :: s := fun hpre =>
    not_prefix_of_ne hc.symm (List.cons_prefix_cons.mp hpre).2
  rw [findBodyOff_cons (by simp only [List.length_cons]; omega) hend (not_prefix_of_ne (by decide)),
    findBodyOff_cons (by simp only [List.length_cons]; omega) (not_prefix_of_ne (by decide)) hlf,
    Option.map_map]
  rfl

/-- How a line of the headers begins. -/
theorem line_append {line : Bytes} (hne : line ≠ []) (hline : 10 ∉ line) {s : Bytes} :
    ∃ c t, line ++ 13 :: s = c :: t ∧ c ≠ 10 ∧ ¬[10] <+: t ∧ s.length ≤ t.length := by
  cases line with
  | nil => exact absurd rfl hne
  | cons c line =>
    refine ⟨c, line ++ 13 :: s, rfl, fun h => hline (h ▸ List.mem_cons_self), fun hpre => ?_, ?_⟩
    · cases line with
      | nil => exact not_prefix_of_ne (by decide) hpre
      | cons d line =>
        refine not_prefix_of_ne (fun h : 10 = d => hline ?_) hpre
        exact h ▸ List.mem_cons_of_mem c List.mem_cons_self
    · simp only [List.length_append, List.length_cons]
      omega

/-- They end behind the empty line. -/
theorem findBodyOff_lines {lines : List Bytes} (hne : lines ≠ [])
    (hlines : ∀ line ∈ lines, line ≠ [] ∧ 10 ∉ line) (s : Bytes) :
    findBodyOff (lines.flatMap (· ++ crlf) ++ crlf ++ s)
      = some ((lines.flatMap (· ++ crlf)).length + 2) := by
  induction lines with
  | nil => exact absurd rfl hne
  | cons line lines ih =>
    obtain ⟨⟨-, hline⟩, hlines⟩ := List.forall_mem_cons.mp hlines
    cases lines with
    | nil =>
      have hend : findBodyOff (13 :: 10 :: 13 :: 10 :: s) = some 4 := by
        rw [findBodyOff, if_neg (by simp), if_pos (by simp [crlf2])]
      simp only [List.flatMap_cons, List.flatMap_nil, crlf, List.append_assoc, List.cons_append,
        List.nil_append]
      rw [findBodyOff_line hline (by simp), hend]
      simp
      omega
    | cons next lines =>
      have ih := ih (List.cons_ne_nil next lines) hlines
      obtain ⟨⟨hnext, hlf⟩, -⟩ := List.forall_mem_cons.mp hlines
      simp only [List.flatMap_cons, crlf, List.append_assoc, List.cons_append,
        List.nil_append] at ih ⊢
      obtain ⟨c, t, ht, hc, ht10, hlen⟩ := line_append hnext hlf
        (s := 10 :: (lines.flatMap (· ++ [13, 10]) ++ 13 :: 10 :: s))
      have hroom : 2 ≤ t.length := by
        refine Nat.le_trans ?_ hlen
        simp only [List.length_cons, List.length_append]
        omega
      rw [ht] at ih ⊢
      rw [findBodyOff_line hline (by simp only [List.length_cons]; omega),
        findBodyOff_between hc ht10 hroom, ih]
      simp only [Option.map_some, List.length_append, List.length_cons]
      congr 1
      omega

/-- **The body begins where the header block ends.** -/
theorem findBodyOff_head {head : Bytes} (hhead : IsHeaderBlock head) (s : Bytes) :
    findBodyOff (head ++ s) = some head.length := by
  obtain ⟨lines, hne, hlines, rfl⟩ := hhead
  refine (findBodyOff_lines hne hlines s).trans ?_
  rw [List.length_append]
  rfl

/-! ## What the parser reports -/

/-- The parser once it has been fed. -/
def Http1Parser.after (parser : Http1Parser η) (h : η) (ds : List Bytes) : η :=
  ds.foldl (fun h d => (parser.feedInput h d).2) h

/-- The events that it has reported by then. -/
def Http1Parser.reported (parser : Http1Parser η) : η → List Bytes → List (Http1Event × η)
  | _, [] => []
  | h, d :: ds => (parser.feedInput h d).1 ++ parser.reported (parser.feedInput h d).2 ds

/-- One more piece. -/
theorem Http1Parser.after_concat (parser : Http1Parser η) (h : η) (ds : List Bytes) (d : Bytes) :
    parser.after h (ds ++ [d]) = (parser.feedInput (parser.after h ds) d).2 := by
  rw [after, List.foldl_append]
  rfl

/-- Its events come behind the others. -/
theorem Http1Parser.reported_concat (parser : Http1Parser η) (h : η) (ds : List Bytes) (d : Bytes) :
    parser.reported h (ds ++ [d])
      = parser.reported h ds ++ (parser.feedInput (parser.after h ds) d).1 := by
  induction ds generalizing h with
  | nil => exact List.append_nil _
  | cons e ds ih =>
    rw [List.cons_append, reported, reported, ih, List.append_assoc]
    rfl

/-- What the parser reports of a request with these header block and bytes behind it, however they are
split: the request line at the latest with the last byte of the headers, the end of the headers with that
byte, and no error from there on. Its headers are those that it finds in `fields`. -/
structure Http1Parser.Reports (parser : Http1Parser η) (h : η) (method path head rest : Bytes)
    (fields : η) : Prop where
  early : ∀ ds : List Bytes, (∀ d ∈ ds, d ≠ []) → ds.flatten <+: head ++ rest →
    ds.flatten.length < head.length →
    (parser.reported h ds).map Prod.fst <+: [.requestLine method path]
  complete : ∀ ds : List Bytes, (∀ d ∈ ds, d ≠ []) → ds.flatten <+: head ++ rest →
    head.length ≤ ds.flatten.length →
    ∃ h₁ h₂ later, parser.reported h ds
        = (.requestLine method path, h₁) :: (.headersComplete, h₂) :: later ∧
      parser.getHeader h₂ = parser.getHeader fields ∧ ∀ ev ∈ later, ev.1 ≠ .error

/-- A put as it arrives. -/
structure PutRequest (parser : Http1Parser η) (h : η) where
  path : Bytes
  head : Bytes
  body : Bytes
  trailing : Bytes
  fields : η
  at_ : StatePath
  head_block : IsHeaderBlock head
  reports : parser.Reports h (bytes "PUT") path head (body ++ trailing) fields
  names : pathIsState (snprintf 512 path) = some at_
  names_key : at_.isList = false
  length : ∃ text, parser.getHeader fields (bytes "Content-Length") 32 = some text ∧
    (strtoll text).1 = body.length
  body_ne : body ≠ []
  room : (head ++ (body ++ trailing)).length ≤ EDGE_HTTP_ACC_MAX

/-- All bytes of the request. -/
def PutRequest.text {parser : Http1Parser η} {h : η} (req : PutRequest parser h) : Bytes :=
  req.head ++ (req.body ++ req.trailing)

/-- Of these pieces the parser has reported no other request line behind the headers, and no second end of
headers. -/
def PutRequest.OneHead {parser : Http1Parser η} {h : η} (req : PutRequest parser h) (ds : List Bytes) :
    Prop :=
  ∀ ev ∈ (parser.reported h ds).drop 2,
    ev.1 = .bodyChunk ∨ ev.1 = .requestLine (bytes "PUT") req.path

/-- The pieces up to the end of the body have one head. -/
def PutRequest.OneHeadOf {parser : Http1Parser η} {h : η} (req : PutRequest parser h)
    (pieces : List Bytes) : Prop :=
  ∀ before d after, pieces = before ++ d :: after →
    before.flatten.length < req.head.length + req.body.length → req.OneHead (before ++ [d])

/-- Fewer pieces have no other head. -/
theorem PutRequest.OneHeadOf.left {parser : Http1Parser η} {h : η} {req : PutRequest parser h}
    {pieces more : List Bytes} (hone : req.OneHeadOf (pieces ++ more)) : req.OneHeadOf pieces := by
  rintro before d after rfl hopen
  exact hone before d (after ++ more) (by simp) hopen

/-! ## Events -/

theorem snprintf_put : snprintf 16 (bytes "PUT") = bytes "PUT" := by decide

/-- Parts of the body, and the request line once more, change nothing. -/
theorem onEvents_chunks (env : ServeEnv η P υ) {path : Bytes} {chunks : List (Http1Event × η)}
    (h : ∀ ev ∈ chunks, ev.1 = .bodyChunk ∨ ev.1 = .requestLine (bytes "PUT") path)
    (s : EdgeHttp1Serve η) (hmethod : s.method = bytes "PUT") (hpath : s.path = snprintf 512 path)
    (hub : Option EdgeWsHub) : onEvents env chunks s hub = (s, hub, false) := by
  induction chunks with
  | nil => rfl
  | cons ev chunks ih =>
    obtain ⟨hev, hchunks⟩ := List.forall_mem_cons.mp h
    obtain ⟨ev, h1⟩ := ev
    obtain rfl | rfl : ev = .bodyChunk ∨ ev = .requestLine (bytes "PUT") path := hev
    · exact ih hchunks
    · rw [onEvents, snprintf_put, ← hmethod, ← hpath]
      exact ih hchunks

theorem requestRid_congr (env : ServeEnv η P υ) (hub : Option EdgeWsHub) {h h' : η}
    (hget : env.parser.getHeader h = env.parser.getHeader h') :
    requestRid env hub h = requestRid env hub h' := by
  rw [requestRid, requestRid, hget]

/-- The principal depends on the headers only. -/
theorem requestPrincipal_congr (env : ServeEnv η P υ) (auth : Option EdgeAuthCtx)
    (key : Option Bytes) {h h' : η} (hget : env.parser.getHeader h = env.parser.getHeader h') :
    requestPrincipal env auth key h = requestPrincipal env auth key h' := by
  unfold requestPrincipal headerPrincipal
  rw [hget]

/-- A feed without an error is what its events do. -/
theorem feedParser_of_onEvents (env : ServeEnv η P υ) {s s' : EdgeHttp1Serve η}
    {hub hub' : Option EdgeWsHub} {d : Bytes} {evs : List (Http1Event × η)}
    (hevs : (env.parser.feedInput s.h1 d).1 = evs)
    (h : onEvents env evs { s with acc := s.acc ++ d } hub = (s', hub', false)) :
    feedParser env s hub d = ({ s' with h1 := (env.parser.feedInput s.h1 d).2 }, hub', false) := by
  subst hevs
  rw [feedParser]
  dsimp only
  rw [h]

theorem markBodyOff_of_find {s : EdgeHttp1Serve η} {off : ℕ} (h : findBodyOff s.acc = some off) :
    markBodyOff s = { s with bodyOff := some off } := by
  rw [markBodyOff, h]

/-- What the end of the headers does, when the body's place and length are found. -/
theorem onHeaders_eq (env : ServeEnv η P υ) {s : EdgeHttp1Serve η} {h fields : η} {off : ℕ}
    {text : Bytes} (hoff : findBodyOff s.acc = some off)
    (hget : env.parser.getHeader h = env.parser.getHeader fields)
    (hlength : env.parser.getHeader fields (bytes "Content-Length") 32 = some text)
    (hub : Option EdgeWsHub) :
    onHeaders env s hub h
      = ({ s with
          headersDone := true
          bodyOff := some off
          contentLength := (strtoll text).1
          wsKey := (env.parser.getHeader fields (bytes "Sec-WebSocket-Key") EDGE_WS_KEY_MAX).getD []
          requestId := (requestRid env hub fields).2
          principal := requestPrincipal env s.auth s.serviceApiKey fields },
        (requestRid env hub fields).1) := by
  have hmark := markBodyOff_of_find (s := { s with headersDone := true }) hoff
  rw [onHeaders, requestRid_congr env hub hget, hmark]
  dsimp only
  rw [hget, hlength, requestPrincipal_congr env _ _ hget]

/-! ## Before and behind the headers -/

/-- The gate reads the principal. -/
theorem Authorised.congr {s s' : EdgeHttp1Serve η} {res : EdgeAuthResource} (h : Authorised s res)
    (hauth : s.auth = s'.auth) (hprincipal : s.principal = s'.principal) : Authorised s' res := by
  unfold Authorised authEnforced at *
  rwa [← hauth, ← hprincipal]

/-- The connection as it was made. -/
structure Fresh (s : EdgeHttp1Serve η) : Prop where
  done : s.done = false
  headers : s.headersDone = false
  acc : s.acc = []

/-- The environment at a time. -/
def ServeEnv.at_ (env : ServeEnv η P υ) (clock : Clock) : ServeEnv η P υ := { env with clock }

section Pieces

variable {env : ServeEnv η P υ} {s₀ : EdgeHttp1Serve η}

/-- At this time the headers of the request authorise it. -/
def PutRequest.AuthorisedAt (req : PutRequest env.parser s₀.h1) (clock : Clock) : Prop :=
  Authorised
    { s₀ with principal := requestPrincipal (env.at_ clock) s₀.auth s₀.serviceApiKey req.fields }
    (edgeAuthClassify (bytes "PUT") (snprintf 512 req.path) false)

/-- The connection once these pieces have come, while the headers are incomplete. -/
structure Waiting (req : PutRequest env.parser s₀.h1) (hub₀ : Option EdgeWsHub) (ds : List Bytes)
    (s : EdgeHttp1Serve η) (hub : Option EdgeWsHub) : Prop where
  h1 : s.h1 = env.parser.after s₀.h1 ds
  acc : s.acc = ds.flatten
  done : s.done = false
  headers : s.headersDone = false
  auth : s.auth = s₀.auth
  key : s.serviceApiKey = s₀.serviceApiKey
  named : env.parser.reported s₀.h1 ds ≠ [] →
    s.method = bytes "PUT" ∧ s.path = snprintf 512 req.path
  hub : hub = hub₀

/-- The connection once these pieces have come, with all of the headers. -/
structure Ready (req : PutRequest env.parser s₀.h1) (hub₀ : Option EdgeWsHub) (ds : List Bytes)
    (s : EdgeHttp1Serve η) (hub : Option EdgeWsHub) : Prop where
  h1 : s.h1 = env.parser.after s₀.h1 ds
  acc : s.acc = ds.flatten
  done : s.done = false
  headers : s.headersDone = true
  method : s.method = bytes "PUT"
  path : s.path = snprintf 512 req.path
  bodyOff : s.bodyOff = some req.head.length
  length : s.contentLength = req.body.length
  rid : s.requestId = (requestRid env hub₀ req.fields).2
  hub : hub = (requestRid env hub₀ req.fields).1
  authorised : Authorised s (edgeAuthClassify (bytes "PUT") (snprintf 512 req.path) false)

/-- The pieces up to here are the beginning of the request. -/
structure Pieces (req : PutRequest env.parser s₀.h1) (ds : List Bytes) : Prop where
  ne : ∀ d ∈ ds, d ≠ []
  pre : ds.flatten <+: req.text

theorem Pieces.left {req : PutRequest env.parser s₀.h1} {ds es : List Bytes}
    (h : Pieces req (ds ++ es)) : Pieces req ds where
  ne d hd := h.ne d (List.mem_append_left es hd)
  pre := by
    have hpre := h.pre
    rw [List.flatten_append] at hpre
    exact (List.prefix_append ..).trans hpre

variable {req : PutRequest env.parser s₀.h1} {hub₀ hub : Option EdgeWsHub} {ds : List Bytes}
  {d : Bytes} {s : EdgeHttp1Serve η}

/-- **A piece within the headers.** -/
theorem Waiting.early (h : Waiting req hub₀ ds s hub) (hds : Pieces req (ds ++ [d]))
    (hshort : (ds ++ [d]).flatten.length < req.head.length) (clock : Clock) :
    ∃ s', feedParser (env.at_ clock) s hub d = (s', hub, false) ∧
      Waiting req hub₀ (ds ++ [d]) s' hub := by
  have hreported := req.reports.early (ds ++ [d]) hds.ne hds.pre hshort
  have hsplit := env.parser.reported_concat s₀.h1 ds d
  have hafter := env.parser.after_concat s₀.h1 ds d
  rw [← h.h1] at hsplit hafter
  have hacc : s.acc ++ d = (ds ++ [d]).flatten := by rw [h.acc]; simp
  cases hevs : (env.parser.feedInput s.h1 d).1 with
  | nil =>
    rw [hevs, List.append_nil] at hsplit
    exact ⟨_, feedParser_of_onEvents (env.at_ clock) hevs rfl,
      ⟨hafter.symm, hacc, h.done, h.headers, h.auth, h.key, fun hne => h.named (hsplit ▸ hne), h.hub⟩⟩
  | cons ev evs =>
    rw [hevs] at hsplit
    rw [hsplit, List.map_append, List.map_cons] at hreported
    obtain ⟨ev, h1⟩ := ev
    -- There is one event in all, so it is this one.
    have hlen := hreported.length_le
    simp only [List.length_append, List.length_cons, List.length_nil] at hlen
    obtain rfl : evs = [] :=
      List.map_eq_nil_iff.mp (List.eq_nil_of_length_eq_zero (l := evs.map Prod.fst) (by omega))
    rw [List.eq_nil_of_length_eq_zero (l := (env.parser.reported s₀.h1 ds).map Prod.fst) (by omega)]
      at hreported
    obtain rfl : ev = .requestLine (bytes "PUT") req.path := (List.cons_prefix_cons.mp hreported).1
    exact ⟨_, feedParser_of_onEvents (env.at_ clock) hevs rfl,
      ⟨hafter.symm, hacc, h.done, h.headers, h.auth, h.key, fun _ => ⟨snprintf_put, rfl⟩, h.hub⟩⟩

/-- **The piece with the end of the headers.** -/
theorem Waiting.complete (h : Waiting req hub₀ ds s hub) (hds : Pieces req (ds ++ [d]))
    (hbefore : ds.flatten.length < req.head.length)
    (hlong : req.head.length ≤ (ds ++ [d]).flatten.length) (hone : req.OneHead (ds ++ [d]))
    {clock : Clock} (hauth : req.AuthorisedAt clock) :
    ∃ s' hub', feedParser (env.at_ clock) s hub d = (s', hub', false) ∧
      Ready req hub₀ (ds ++ [d]) s' hub' := by
  obtain ⟨h₁, h₂, chunks, hreported, hget, -⟩ :=
    req.reports.complete (ds ++ [d]) hds.ne hds.pre hlong
  have hchunks : ∀ ev ∈ chunks, ev.1 = .bodyChunk ∨ ev.1 = .requestLine (bytes "PUT") req.path :=
    fun ev hev => hone ev (hreported ▸ hev)
  have hsplit := env.parser.reported_concat s₀.h1 ds d
  have hafter := env.parser.after_concat s₀.h1 ds d
  rw [← h.h1] at hsplit hafter
  have hacc : s.acc ++ d = (ds ++ [d]).flatten := by rw [h.acc]; simp
  obtain ⟨text, hlength, hvalue⟩ := req.length
  have hoff : findBodyOff (s.acc ++ d) = some req.head.length := by
    obtain ⟨more, hmore⟩ := List.prefix_of_prefix_length_le (List.prefix_append ..) hds.pre hlong
    rw [hacc, ← hmore]
    exact findBodyOff_head req.head_block more
  -- What the events leave, once the request line is known.
  have hheaders : ∀ s₁ : EdgeHttp1Serve η, s₁.acc = s.acc ++ d → s₁.auth = s₀.auth →
      s₁.serviceApiKey = s₀.serviceApiKey → s₁.done = false → s₁.method = bytes "PUT" →
      s₁.path = snprintf 512 req.path →
      ∃ s₂ hub₂, onEvents (env.at_ clock) ((.headersComplete, h₂) :: chunks) s₁ hub
          = (s₂, hub₂, false) ∧
        Ready req hub₀ (ds ++ [d]) { s₂ with h1 := (env.parser.feedInput s.h1 d).2 } hub₂ := by
    intro s₁ hacc₁ hauth₁ hkey₁ hdone₁ hmethod₁ hpath₁
    have heq := onHeaders_eq (env.at_ clock) (s := s₁) (hacc₁ ▸ hoff) hget hlength hub
    refine ⟨_, _, (congrArg (fun x : EdgeHttp1Serve η × Option EdgeWsHub =>
      onEvents (env.at_ clock) chunks x.1 x.2) heq).trans
        (onEvents_chunks _ hchunks _ (by exact hmethod₁) (by exact hpath₁) _), ?_⟩
    exact ⟨hafter.symm, hacc₁.trans hacc, hdone₁, rfl, hmethod₁, hpath₁, rfl, hvalue,
      by rw [h.hub]; rfl, by rw [h.hub]; rfl,
      hauth.congr hauth₁.symm (by rw [hauth₁, hkey₁])⟩
  have hbeforeR := req.reports.early ds hds.left.ne hds.left.pre hbefore
  rw [hsplit] at hreported
  cases hR : env.parser.reported s₀.h1 ds with
  | nil =>
    rw [hR, List.nil_append] at hreported
    obtain ⟨s₂, hub₂, hrun, hready⟩ := hheaders
      { s with
        acc := s.acc ++ d
        method := snprintf 16 (bytes "PUT")
        path := snprintf 512 req.path } rfl h.auth h.key h.done snprintf_put rfl
    exact ⟨_, hub₂, feedParser_of_onEvents (env.at_ clock) hreported hrun, hready⟩
  | cons ev evs =>
    obtain ⟨hmethod, hpath⟩ := h.named (hR ▸ List.cons_ne_nil ev evs)
    rw [hR] at hbeforeR hreported
    have hlen := hbeforeR.length_le
    simp only [List.length_map, List.length_cons, List.length_nil] at hlen
    obtain rfl : evs = [] := List.eq_nil_of_length_eq_zero (by omega)
    obtain ⟨s₂, hub₂, hrun, hready⟩ := hheaders { s with acc := s.acc ++ d } rfl h.auth h.key h.done
      hmethod hpath
    exact ⟨_, hub₂, feedParser_of_onEvents (env.at_ clock) (List.cons.inj hreported).2 hrun,
      hready⟩

/-- **A piece behind the headers.** -/
theorem Ready.piece (h : Ready req hub₀ ds s hub) (hds : Pieces req (ds ++ [d]))
    (hbefore : req.head.length ≤ ds.flatten.length) (hone : req.OneHead (ds ++ [d])) (clock : Clock) :
    ∃ s', feedParser (env.at_ clock) s hub d = (s', hub, false) ∧
      Ready req hub₀ (ds ++ [d]) s' hub := by
  obtain ⟨a₁, a₂, old, hold, -, -⟩ := req.reports.complete ds hds.left.ne hds.left.pre hbefore
  have hlong : req.head.length ≤ (ds ++ [d]).flatten.length := by
    rw [List.flatten_append, List.length_append]
    exact Nat.le_add_right_of_le hbefore
  obtain ⟨h₁, h₂, chunks, hreported, -, -⟩ :=
    req.reports.complete (ds ++ [d]) hds.ne hds.pre hlong
  have hchunks : ∀ ev ∈ chunks, ev.1 = .bodyChunk ∨ ev.1 = .requestLine (bytes "PUT") req.path :=
    fun ev hev => hone ev (hreported ▸ hev)
  have hsplit := env.parser.reported_concat s₀.h1 ds d
  have hafter := env.parser.after_concat s₀.h1 ds d
  rw [← h.h1] at hsplit hafter
  have hacc : s.acc ++ d = (ds ++ [d]).flatten := by rw [h.acc]; simp
  rw [hsplit, hold] at hreported
  -- The two events are among those of before; what is new are parts of the body.
  obtain ⟨-, htail⟩ := List.cons.inj hreported
  obtain ⟨-, htail⟩ := List.cons.inj htail
  have hnew : ∀ ev ∈ (env.parser.feedInput s.h1 d).1,
      ev.1 = .bodyChunk ∨ ev.1 = .requestLine (bytes "PUT") req.path :=
    fun ev hev => hchunks ev (htail ▸ List.mem_append_right old hev)
  exact ⟨_, feedParser_of_onEvents (env.at_ clock) rfl
      (onEvents_chunks _ hnew _ (by exact h.method) (by exact h.path) _),
    ⟨hafter.symm, hacc, h.done, h.headers, h.method, h.path, h.bodyOff, h.length, h.rid, h.hub,
      h.authorised.congr rfl rfl⟩⟩

/-! ## The body -/

/-- A path that is no listing has a key. -/
theorem pathIsState_key_ne {path : Bytes} {p : StatePath} (h : pathIsState path = some p)
    (hlist : p.isList = false) : p.key ≠ [] := by
  unfold pathIsState at h
  dsimp only at h
  split_ifs at h with hpre hlen hns
  split at h
  · obtain rfl := Option.some.inj h
    cases hlist
  · split_ifs at h with hkey
    obtain rfl := Option.some.inj h
    exact (not_or.mp hkey).1

theorem PutRequest.length_body_pos (req : PutRequest env.parser s₀.h1) : 0 < req.body.length :=
  List.length_pos_iff.mpr req.body_ne

/-- The body is whole when the bytes suffice. -/
theorem Ready.waitFullBody_eq (h : Ready req hub₀ ds s hub) :
    waitFullBody s = (s, decide (req.head.length + req.body.length ≤ max req.head.length s.acc.length))
    := by
  have hpos := req.length_body_pos
  have hlocate : locateBody s = s := by rw [locateBody, h.bodyOff]
  rw [waitFullBody, h.length, if_neg (by omega)]
  dsimp only
  rw [hlocate, h.bodyOff]
  refine congrArg (s, ·) (decide_eq_decide.mpr ?_)
  rw [h.length]
  dsimp only
  omega

/-- And then it is the body of the request. -/
theorem Ready.bodyBytes_eq (h : Ready req hub₀ ds s hub) (hds : Pieces req ds)
    (hfull : req.head.length + req.body.length ≤ ds.flatten.length) : bodyBytes s = req.body := by
  obtain ⟨more, hmore⟩ := hds.pre
  have hdrop : ∃ t, s.acc.drop req.head.length = req.body ++ t := by
    have htake := congrArg (List.drop req.head.length) hmore
    rw [PutRequest.text, List.drop_left, List.drop_append_of_le_length (by omega)] at htake
    have hpre : req.body <+: ds.flatten.drop req.head.length := by
      refine List.prefix_of_prefix_length_le (List.prefix_append req.body req.trailing)
        ⟨more, htake⟩ ?_
      rw [List.length_drop]
      omega
    obtain ⟨t, ht⟩ := hpre
    exact ⟨t, h.acc ▸ ht.symm⟩
  obtain ⟨t, ht⟩ := hdrop
  rw [bodyBytes, h.bodyOff]
  dsimp only
  rw [ht, h.length, Int.toNat_natCast, List.take_left]
  split_ifs with hlong
  · rfl
  · have : t = [] := by
      rw [List.length_append] at hlong
      exact List.eq_nil_of_length_eq_zero (by omega)
    rw [this, List.append_nil]

theorem Ready.needs_body (h : Ready req hub₀ ds s hub) :
    (s.method = bytes "PUT" ∨ s.method = bytes "POST") ∧ s.contentLength > 0 := by
  have hpos := req.length_body_pos
  exact ⟨.inl h.method, by rw [h.length]; omega⟩

/-- While the body is incomplete the call waits. -/
theorem Ready.waits (h : Ready req hub₀ ds s hub)
    (hshort : ds.flatten.length < req.head.length + req.body.length) (env' : ServeEnv η P υ)
    (w : ServeWorld P υ) (outCap : ℕ) : feedParsed env' s w outCap = ⟨s, w, 0, []⟩ := by
  have hpos := req.length_body_pos
  have hnot : decide (req.head.length + req.body.length ≤ max req.head.length s.acc.length)
      = false := by
    rw [h.acc]
    exact decide_eq_false (by omega)
  rw [feedParsed, h.headers, if_neg (by decide), if_pos h.needs_body, h.waitFullBody_eq, hnot]
  rfl

/-- Once it is complete the value is put. -/
theorem Ready.puts (h : Ready req hub₀ ds s hub) (hds : Pieces req ds)
    (hfull : req.head.length + req.body.length ≤ ds.flatten.length) (env' : ServeEnv η P υ)
    {w : ServeWorld P υ} {st : StateStore} (hst : w.store = some st) (outCap : ℕ) :
    feedParsed env' s w outCap
      = finishServed (answerChange env' s w outCap req.at_ (bytes "put") (some req.body)
          (edgeStatePut st req.at_.ns req.at_.key req.body)) := by
  have hready : decide (req.head.length + req.body.length ≤ max req.head.length s.acc.length)
      = true := by
    rw [h.acc]
    exact decide_eq_true (by omega)
  have hpath : pathIsState s.path = some req.at_ := by rw [h.path]; exact req.names
  have hkey : ¬(req.at_.isList = true ∨ req.at_.key = []) := by
    rintro (hlist | hnil)
    · exact absurd (req.names_key.symm.trans hlist) (by decide)
    · exact pathIsState_key_ne req.names req.names_key hnil
  have hrbac : requireRbac s w outCap (edgeAuthClassify s.method s.path req.at_.isList) = none := by
    rw [h.method, h.path, req.names_key]
    exact requireRbac_of_authorised h.authorised w outCap
  have hlong : ¬(s.contentLength ≥ 0 ∧ ((s.acc.drop req.head.length).length : ℤ) < s.contentLength) := by
    rw [h.length, h.acc, List.length_drop]
    omega
  rw [feedParsed, h.headers, if_neg (by decide), if_pos h.needs_body, h.waitFullBody_eq, hready]
  dsimp only
  rw [if_neg (by decide), dispatch_of_state env' w outCap hpath, dispatchState, hpath]
  dsimp only
  rw [hrbac, hst]
  dsimp only
  rw [h.method, if_neg (by decide), if_pos rfl, if_neg hkey, statePutRoute, h.bodyOff]
  dsimp only
  rw [if_neg hlong, h.bodyBytes_eq hds hfull]

/-! ## Feeds -/

/-- Two calls reply the same and leave the same store and hub. -/
structure SameReply (r r' : Served η P υ) : Prop where
  ret : r.ret = r'.ret
  out : r.out = r'.out
  store : r.world.store = r'.world.store
  hub : r.world.hub = r'.world.hub

/-- The answer to the put: the store takes the whole body, once, or refuses it. -/
def PutRequest.answer (req : PutRequest env.parser s₀.h1) (w₀ : ServeWorld P υ) (outCap : ℕ)
    (st : StateStore) : Served η P υ :=
  answerChange env { s₀ with requestId := (requestRid env w₀.hub req.fields).2 }
    { w₀ with hub := (requestRid env w₀.hub req.fields).1 } outCap req.at_ (bytes "put")
    (some req.body) (edgeStatePut st req.at_.ns req.at_.key req.body)

/-- An answer depends on the store and the hub only. -/
theorem sameReply_answer (s s' : EdgeHttp1Serve η) (w w' : ServeWorld P υ) {outCap : ℕ}
    (hcap : 64 ≤ outCap) (hstore : w.store = w'.store) (hhub : w.hub = w'.hub) (status : ℤ)
    (reason ctype body : Bytes) :
    SameReply (answer s w outCap status reason ctype body)
      (answer s' w' outCap status reason ctype body) := by
  rw [answer_eq s w hcap, answer_eq s' w' hcap]
  split_ifs with hfits
  · exact ⟨rfl, rfl, hstore, hhub⟩
  · exact ⟨rfl, rfl, hstore, hhub⟩

/-- The answer to a change depends on the request id and the hub only. -/
theorem sameReply_answerChange (env : ServeEnv η P υ) {s s' : EdgeHttp1Serve η}
    {w w' : ServeWorld P υ} {outCap : ℕ} (hcap : 64 ≤ outCap) (hrid : s.requestId = s'.requestId)
    (hhub : w.hub = w'.hub) (p : StatePath) (op : Bytes) (value : Option Bytes)
    (r : StateStore × EdgeStateErr) :
    SameReply (answerChange env s w outCap p op value r)
      (answerChange env s' w' outCap p op value r) := by
  unfold answerChange
  dsimp only
  split_ifs with hok
  · have hstore : (notifyStateChanged env s { w with store := some r.1 } p.ns p.key op value).store
        = (notifyStateChanged env s' { w' with store := some r.1 } p.ns p.key op value).store := rfl
    have hpush : (notifyStateChanged env s { w with store := some r.1 } p.ns p.key op value).hub
        = (notifyStateChanged env s' { w' with store := some r.1 } p.ns p.key op value).hub := by
      unfold notifyStateChanged
      dsimp only
      rw [hhub, hrid]
    exact sameReply_answer s s' _ _ hcap hstore hpush 204 (bytes "No Content") jsonType []
  · exact sameReply_answer s s' { w with store := some r.1 } { w' with store := some r.1 } hcap rfl hhub
      _ _ _ _

/-- The store is the one with the change. -/
theorem answerChange_store (env : ServeEnv η P υ) (s : EdgeHttp1Serve η) (w : ServeWorld P υ)
    (outCap : ℕ) (p : StatePath) (op : Bytes) (value : Option Bytes) (r : StateStore × EdgeStateErr) :
    (answerChange env s w outCap p op value r).world.store = some r.1 := by
  unfold answerChange
  dsimp only
  split_ifs with hok
  · exact answer_store ..
  · exact answerErr_store ..

theorem answer_ret_of_fits (s : EdgeHttp1Serve η) (w : ServeWorld P υ) {outCap : ℕ} {status : ℤ}
    {reason body : Bytes} (hcap : 64 ≤ outCap)
    (hfits : (responseHead status reason jsonType [] body.length).length + body.length < outCap) :
    (answer s w outCap status reason jsonType body).ret = 1 :=
  ((answer_replies_iff s w hcap status reason body).mpr hfits).1

/-- A change is answered. -/
theorem answerChange_ret (env : ServeEnv η P υ) (s : EdgeHttp1Serve η) (w : ServeWorld P υ)
    {outCap : ℕ} (hcap : 256 ≤ outCap) (p : StatePath) (op : Bytes) (value : Option Bytes)
    (r : StateStore × EdgeStateErr) : (answerChange env s w outCap p op value r).ret = 1 := by
  have hcap' : 64 ≤ outCap := by omega
  unfold answerChange
  dsimp only
  split_ifs with hok
  · have hhead := length_responseHead_json 204 (bytes "No Content") 0
    have hparts : (decimalInt 204).length = 3 ∧ (bytes "No Content").length = 10 ∧
        (decimal 0).length = 1 := by decide
    refine answer_ret_of_fits s _ hcap' ?_
    rw [List.length_nil]
    omega
  · exact answer_ret_of_fits s _ hcap' (Nat.lt_of_lt_of_le (length_errToHttp r.2) hcap)

/-- The connection and the world once a piece has come, at a time. -/
def feedPiece (env : ServeEnv η P υ) (outCap : ℕ) (x : EdgeHttp1Serve η × ServeWorld P υ)
    (f : Clock × Bytes) : EdgeHttp1Serve η × ServeWorld P υ :=
  let r := edgeHttp1ServeFeed (env.at_ f.1) x.1 x.2 f.2 outCap
  (r.serve, r.world)

/-- The world once the value has been put, and the subscribers told. -/
structure PutRequest.Put (req : PutRequest env.parser s₀.h1) (w₀ : ServeWorld P υ) (outCap : ℕ)
    (st : StateStore) (w : ServeWorld P υ) : Prop where
  store : w.store = some (edgeStatePut st req.at_.ns req.at_.key req.body).1
  hub : w.hub = (req.answer w₀ outCap st).world.hub

/-- What the feed of a piece `d` behind pieces `ds` leaves. -/
structure PutFed (req : PutRequest env.parser s₀.h1) (w₀ : ServeWorld P υ) (outCap : ℕ)
    (st : StateStore) (ds : List Bytes) (d : Bytes) (r : Served η P υ) : Prop where
  waits : (ds ++ [d]).flatten.length < req.head.length + req.body.length →
    r.ret = 0 ∧ r.world.store = some st
  answers : ds.flatten.length < req.head.length + req.body.length →
    req.head.length + req.body.length ≤ (ds ++ [d]).flatten.length →
    r.ret = 1 ∧ r.out = (req.answer w₀ outCap st).out ∧ req.Put w₀ outCap st r.world
  closed : req.head.length + req.body.length ≤ ds.flatten.length →
    r.ret = -1 ∧ req.Put w₀ outCap st r.world

/-- The connection and the world once pieces have come. -/
structure Collected (req : PutRequest env.parser s₀.h1) (w₀ : ServeWorld P υ) (outCap : ℕ)
    (st : StateStore) (ds : List Bytes) (s : EdgeHttp1Serve η) (w : ServeWorld P υ) : Prop where
  headers : ds.flatten.length < req.head.length → Waiting req w₀.hub ds s w.hub
  body : req.head.length ≤ ds.flatten.length →
    ds.flatten.length < req.head.length + req.body.length → Ready req w₀.hub ds s w.hub
  store : ds.flatten.length < req.head.length + req.body.length → w.store = some st
  closed : req.head.length + req.body.length ≤ ds.flatten.length →
    s.done = true ∧ req.Put w₀ outCap st w

/-- A feed of a piece that has room. -/
theorem feed_of_feedParser {env' : ServeEnv η P υ} {s s' : EdgeHttp1Serve η} {w : ServeWorld P υ}
    {hub' : Option EdgeWsHub} {d : Bytes} (hdone : s.done = false) (hd : d ≠ [])
    (hroom : (s.acc ++ d).length ≤ EDGE_HTTP_ACC_MAX)
    (h : feedParser env' s w.hub d = (s', hub', false)) (outCap : ℕ) :
    edgeHttp1ServeFeed env' s w d outCap
      = feedParsed env' s' { countInput w d with hub := hub' } outCap := by
  rw [List.length_append] at hroom
  have hparse : feedParser env' s (countInput w d).hub d = (s', hub', false) := h
  rw [edgeHttp1ServeFeed, hdone, if_neg (by decide), if_neg hd]
  dsimp only
  rw [if_neg (by omega), hparse]
  rfl

theorem length_concat (ds : List Bytes) (d : Bytes) :
    (ds ++ [d]).flatten.length = ds.flatten.length + d.length := by
  rw [List.flatten_append, List.length_append, List.flatten_singleton]

variable {w₀ w : ServeWorld P υ} {outCap : ℕ} {st : StateStore}

/-- Before the last byte of the body the request is open. -/
theorem Collected.open_ (h : Collected req w₀ outCap st ds s w)
    (hopen : ds.flatten.length < req.head.length + req.body.length) :
    s.done = false ∧ s.acc = ds.flatten := by
  by_cases hheaders : ds.flatten.length < req.head.length
  · exact ⟨(h.headers hheaders).done, (h.headers hheaders).acc⟩
  · have hready := h.body (by omega) hopen
    exact ⟨hready.done, hready.acc⟩

/-- What the parser makes of a piece. -/
theorem Collected.parsed (h : Collected req w₀ outCap st ds s w) (hds : Pieces req (ds ++ [d]))
    (hopen : ds.flatten.length < req.head.length + req.body.length) (hone : req.OneHead (ds ++ [d]))
    {clock : Clock} (hauth : req.AuthorisedAt clock) :
    ∃ s' hub', feedParser (env.at_ clock) s w.hub d = (s', hub', false) ∧
      ((ds ++ [d]).flatten.length < req.head.length → Waiting req w₀.hub (ds ++ [d]) s' hub') ∧
      (req.head.length ≤ (ds ++ [d]).flatten.length → Ready req w₀.hub (ds ++ [d]) s' hub') := by
  by_cases hheaders : ds.flatten.length < req.head.length
  · by_cases hshort : (ds ++ [d]).flatten.length < req.head.length
    · obtain ⟨s', hparse, hwaiting⟩ := (h.headers hheaders).early hds hshort clock
      exact ⟨s', w.hub, hparse, fun _ => hwaiting, fun hlong => absurd hshort (by omega)⟩
    · obtain ⟨s', hub', hparse, hready⟩ :=
        (h.headers hheaders).complete hds hheaders (by omega) hone hauth
      exact ⟨s', hub', hparse, fun hlt => absurd hlt hshort, fun _ => hready⟩
  · obtain ⟨s', hparse, hready⟩ := (h.body (by omega) hopen).piece hds (by omega) hone clock
    have hlen := length_concat ds d
    exact ⟨s', w.hub, hparse, fun hlt => absurd hlt (by omega), fun _ => hready⟩

/-- A piece behind which there is more of the body to come. -/
theorem fed_short {s' : EdgeHttp1Serve η} {w' : ServeWorld P υ}
    (hwaiting : (ds ++ [d]).flatten.length < req.head.length →
      Waiting req w₀.hub (ds ++ [d]) s' w'.hub)
    (hready : req.head.length ≤ (ds ++ [d]).flatten.length → Ready req w₀.hub (ds ++ [d]) s' w'.hub)
    (hstore : w'.store = some st)
    (hshort : (ds ++ [d]).flatten.length < req.head.length + req.body.length)
    (env' : ServeEnv η P υ) (outCap : ℕ) :
    PutFed req w₀ outCap st ds d (feedParsed env' s' w' outCap) ∧
      Collected req w₀ outCap st (ds ++ [d]) (feedParsed env' s' w' outCap).serve
        (feedParsed env' s' w' outCap).world := by
  have hlen := length_concat ds d
  have hwait : feedParsed env' s' w' outCap = ⟨s', w', 0, []⟩ := by
    by_cases hheaders : (ds ++ [d]).flatten.length < req.head.length
    · rw [feedParsed, (hwaiting hheaders).headers]
      rfl
    · exact (hready (by omega)).waits hshort _ _ outCap
  -- Nothing is answered, so the world is the one that the parser has left.
  rw [hwait]
  constructor
  · exact ⟨fun _ => ⟨rfl, hstore⟩, fun _ hfull => absurd hshort (by omega),
      fun hfull => absurd hshort (by omega)⟩
  · exact ⟨hwaiting, fun hlong _ => hready hlong, fun _ => hstore,
      fun hfull => absurd hshort (by omega)⟩

/-- The piece with the end of the body. -/
theorem fed_whole {s' : EdgeHttp1Serve η} {w' : ServeWorld P υ}
    (hready : Ready req w₀.hub (ds ++ [d]) s' w'.hub) (hds : Pieces req (ds ++ [d]))
    (hopen : ds.flatten.length < req.head.length + req.body.length)
    (hfull : req.head.length + req.body.length ≤ (ds ++ [d]).flatten.length)
    (hstore : w'.store = some st) (hcap : 256 ≤ outCap) (clock : Clock) :
    PutFed req w₀ outCap st ds d (feedParsed (env.at_ clock) s' w' outCap) ∧
      Collected req w₀ outCap st (ds ++ [d]) (feedParsed (env.at_ clock) s' w' outCap).serve
        (feedParsed (env.at_ clock) s' w' outCap).world := by
  rw [hready.puts hds hfull _ hstore outCap]
  have hret := answerChange_ret (env.at_ clock) s' w' hcap req.at_ (bytes "put") (some req.body)
    (edgeStatePut st req.at_.ns req.at_.key req.body)
  have hsame : SameReply (answerChange (env.at_ clock) s' w' outCap req.at_ (bytes "put")
      (some req.body) (edgeStatePut st req.at_.ns req.at_.key req.body)) (req.answer w₀ outCap st) :=
    sameReply_answerChange env (Nat.le_trans (by decide) hcap) hready.rid hready.hub ..
  have hput : req.Put w₀ outCap st (answerChange (env.at_ clock) s' w' outCap req.at_ (bytes "put")
      (some req.body) (edgeStatePut st req.at_.ns req.at_.key req.body)).world :=
    ⟨answerChange_store .., hsame.hub⟩
  rw [finishServed, if_pos hret]
  constructor
  · exact ⟨fun hlt => absurd hfull (by omega), fun _ _ => ⟨hret, hsame.out, hput⟩,
      fun hdone => absurd hopen (by omega)⟩
  · exact ⟨fun hlt => absurd hfull (by omega), fun _ hlt => absurd hfull (by omega),
      fun hlt => absurd hfull (by omega), fun _ => ⟨rfl, hput⟩⟩

/-- What comes behind the body is not looked at. -/
theorem Collected.fed_closed (h : Collected req w₀ outCap st ds s w)
    (hdone : req.head.length + req.body.length ≤ ds.flatten.length) (env' : ServeEnv η P υ)
    (outCap' : ℕ) (d : Bytes) :
    PutFed req w₀ outCap st ds d (edgeHttp1ServeFeed env' s w d outCap') ∧
      Collected req w₀ outCap st (ds ++ [d]) (edgeHttp1ServeFeed env' s w d outCap').serve
        (edgeHttp1ServeFeed env' s w d outCap').world := by
  have hlen := length_concat ds d
  obtain ⟨hclosed, hput⟩ := h.closed hdone
  -- A connection that is done refuses every byte.
  rw [edgeHttp1ServeFeed, if_pos hclosed]
  constructor
  · exact ⟨fun hlt => absurd hlt (by omega), fun hlt => absurd hlt (by omega), fun _ => ⟨rfl, hput⟩⟩
  · exact ⟨fun hlt => absurd hlt (by omega), fun _ hlt => absurd hlt (by omega),
      fun hlt => absurd hlt (by omega), fun _ => ⟨hclosed, hput⟩⟩


/-- **One piece.** -/
theorem Collected.feed (h : Collected req w₀ outCap st ds s w) (hcap : 256 ≤ outCap)
    (hds : Pieces req (ds ++ [d]))
    (hone : ds.flatten.length < req.head.length + req.body.length → req.OneHead (ds ++ [d]))
    {clock : Clock} (hauth : req.AuthorisedAt clock) :
    PutFed req w₀ outCap st ds d (edgeHttp1ServeFeed (env.at_ clock) s w d outCap) ∧
      Collected req w₀ outCap st (ds ++ [d])
        (edgeHttp1ServeFeed (env.at_ clock) s w d outCap).serve
        (edgeHttp1ServeFeed (env.at_ clock) s w d outCap).world := by
  have hlen := length_concat ds d
  by_cases hopen : ds.flatten.length < req.head.length + req.body.length
  · obtain ⟨hdone, hacc⟩ := h.open_ hopen
    obtain ⟨s', hub', hparse, hwaiting, hready⟩ := h.parsed hds hopen (hone hopen) hauth
    have hroom : (s.acc ++ d).length ≤ EDGE_HTTP_ACC_MAX := by
      rw [hacc, List.length_append, ← hlen]
      exact Nat.le_trans hds.pre.length_le req.room
    have hd : d ≠ [] := hds.ne d (List.mem_append_right ds List.mem_cons_self)
    rw [feed_of_feedParser hdone hd hroom hparse]
    have hstore : ({ countInput w d with hub := hub' } : ServeWorld P υ).store = some st :=
      h.store hopen
    by_cases hshort : (ds ++ [d]).flatten.length < req.head.length + req.body.length
    · exact fed_short hwaiting hready hstore hshort _ outCap
    · exact fed_whole (hready (by omega)) hds hopen (by omega) hstore hcap clock
  · exact h.fed_closed (by omega) _ outCap d

/-! ## Runs -/

/-- Before the first piece nothing is collected. -/
theorem Fresh.collected (req : PutRequest env.parser s₀.h1) (hs : Fresh s₀) (outCap : ℕ)
    (hst : w₀.store = some st) : Collected req w₀ outCap st [] s₀ w₀ := by
  have hhead : 0 < req.head.length := by
    obtain ⟨lines, -, -, hhead⟩ := req.head_block
    rw [hhead, List.length_append]
    exact Nat.add_pos_right _ (by decide)
  exact ⟨fun _ => ⟨rfl, hs.acc, hs.done, hs.headers, rfl, rfl, fun h => absurd rfl h, rfl⟩,
    fun hle => absurd hhead (Nat.not_lt.mpr hle), fun _ => hst,
    fun hle => absurd hhead (Nat.not_lt.mpr (Nat.le_trans (Nat.le_add_right ..) hle))⟩

/-- The pieces of a run of feeds. -/
theorem collected_runFrom (hs : Fresh s₀) (hst : w₀.store = some st) (hcap : 256 ≤ outCap)
    {feeds : List (Clock × Bytes)} (hds : Pieces req (feeds.map Prod.snd))
    (hone : req.OneHeadOf (feeds.map Prod.snd)) (hauth : ∀ f ∈ feeds, req.AuthorisedAt f.1) :
    Collected req w₀ outCap st (feeds.map Prod.snd) (runFrom (feedPiece env outCap) (s₀, w₀) feeds).1
      (runFrom (feedPiece env outCap) (s₀, w₀) feeds).2 := by
  induction feeds using List.reverseRecOn with
  | nil => exact hs.collected req outCap hst
  | append_singleton feeds f ih =>
    rw [List.map_append, List.map_singleton] at hds hone ⊢
    rw [runFrom_append]
    have hbefore := ih hds.left hone.left fun g hg => hauth g (List.mem_append_left [f] hg)
    exact (hbefore.feed hcap hds (hone _ f.2 [] rfl)
      (hauth f (List.mem_append_right feeds List.mem_cons_self))).2

/-- Some piece completes what is long enough. -/
theorem exists_completing {n : ℕ} (hn : 0 < n) {feeds : List (Clock × Bytes)}
    (hlen : n ≤ (feeds.map Prod.snd).flatten.length) :
    ∃ before f after, feeds = before ++ f :: after ∧ (before.map Prod.snd).flatten.length < n ∧
      n ≤ (before.map Prod.snd ++ [f.2]).flatten.length := by
  induction feeds using List.reverseRecOn with
  | nil => exact absurd hn (Nat.not_lt.mpr hlen)
  | append_singleton feeds f ih =>
    by_cases hbefore : n ≤ (feeds.map Prod.snd).flatten.length
    · obtain ⟨before, g, after, rfl, hlt, hle⟩ := ih hbefore
      exact ⟨before, g, after ++ [f], by simp, hlt, hle⟩
    · refine ⟨feeds, f, [], rfl, Nat.not_le.mp hbefore, ?_⟩
      rwa [List.map_append, List.map_singleton] at hlen

/-- **A put does not depend on its pieces**, while they have one head. However the bytes of an authorised put
of a state key are split, the feeds wait until the body is complete; the one that completes it puts exactly
the body, and its answer, the store and the hub are those of `PutRequest.answer`; nothing happens behind
it. -/
theorem put_any_split (req : PutRequest env.parser s₀.h1) (hs : Fresh s₀) (hst : w₀.store = some st)
    (hcap : 256 ≤ outCap) (feeds : List (Clock × Bytes)) (hne : ∀ f ∈ feeds, f.2 ≠ [])
    (hall : (feeds.map Prod.snd).flatten = req.text) (hone : req.OneHeadOf (feeds.map Prod.snd))
    (hauth : ∀ f ∈ feeds, req.AuthorisedAt f.1) :
    (∀ before f after, feeds = before ++ f :: after →
      PutFed req w₀ outCap st (before.map Prod.snd) f.2
        (edgeHttp1ServeFeed (env.at_ f.1) (runFrom (feedPiece env outCap) (s₀, w₀) before).1
          (runFrom (feedPiece env outCap) (s₀, w₀) before).2 f.2 outCap)) ∧
    ∃ before f after, feeds = before ++ f :: after ∧
      (before.map Prod.snd).flatten.length < req.head.length + req.body.length ∧
      req.head.length + req.body.length ≤ (before.map Prod.snd ++ [f.2]).flatten.length := by
  refine ⟨?_, exists_completing (Nat.add_pos_right _ req.length_body_pos) ?_⟩
  · rintro before f after rfl
    have hmap : (before ++ f :: after).map Prod.snd
        = before.map Prod.snd ++ [f.2] ++ after.map Prod.snd := by simp
    have hfirst := (hmap ▸ hone).left
    have hpieces : Pieces req (before.map Prod.snd ++ [f.2] ++ after.map Prod.snd) := by
      rw [hmap] at hall
      refine ⟨fun d hd => ?_, hall ▸ List.prefix_rfl⟩
      rw [← hmap] at hd
      obtain ⟨g, hg, rfl⟩ := List.mem_map.mp hd
      exact hne g hg
    have hbefore := collected_runFrom hs hst hcap hpieces.left.left hfirst.left
      fun g hg => hauth g (List.mem_append_left _ hg)
    exact (hbefore.feed hcap hpieces.left (hfirst _ f.2 [] rfl)
      (hauth f (List.mem_append_right before List.mem_cons_self))).1
  · rw [hall, PutRequest.text, List.length_append, List.length_append]
    omega

end Pieces

/-! ## A put in three pieces, and one with another request behind it -/

/-- What a parser reports that counts the bytes up to the end of the headers. -/
def countingEvents (path : Bytes) (headLen h len : ℕ) : List (Http1Event × ℕ) :=
  if h < headLen then
    if headLen ≤ h + len then [(.requestLine (bytes "PUT") path, h), (.headersComplete, h)] else []
  else [(.bodyChunk, h)]

/-- A parser that counts the bytes. Behind the headers it also reports what `next` says. -/
def countingParser (path : Bytes) (headLen : ℕ) (contentLength : Bytes)
    (next : ℕ → ℕ → List Http1Event) : Http1Parser ℕ where
  feedInput h d :=
    (countingEvents path headLen h d.length
      ++ if headLen ≤ h + d.length then (next h d.length).map fun ev => (ev, h) else [], h + d.length)
  getHeader _ name _ := if name = bytes "Content-Length" then some contentLength else none
  isWebsocketUpgrade _ := false

section

variable (path : Bytes) (headLen : ℕ) (contentLength : Bytes) (next : ℕ → ℕ → List Http1Event)

theorem countingParser_length (h cap : ℕ) :
    (countingParser path headLen contentLength next).getHeader h (bytes "Content-Length") cap
      = some contentLength := by simp [countingParser]

/-- It counts every byte. -/
theorem countingParser_after (ds : List Bytes) :
    (countingParser path headLen contentLength next).after 0 ds = ds.flatten.length := by
  induction ds using List.reverseRecOn with
  | nil => rfl
  | append_singleton ds d ih =>
    rw [Http1Parser.after_concat, ih, length_concat]
    rfl

/-- What it reports depends on the count. -/
theorem countingParser_reported_concat (ds : List Bytes) (d : Bytes) :
    (countingParser path headLen contentLength next).reported 0 (ds ++ [d])
      = (countingParser path headLen contentLength next).reported 0 ds
        ++ (countingEvents path headLen ds.flatten.length d.length
          ++ if headLen ≤ ds.flatten.length + d.length then
              (next ds.flatten.length d.length).map fun ev => (ev, ds.flatten.length) else []) := by
  rw [Http1Parser.reported_concat, countingParser_after]
  rfl

/-- Before the end of the headers it is silent. -/
theorem countingParser_early {ds : List Bytes} (h : ds.flatten.length < headLen) :
    (countingParser path headLen contentLength next).reported 0 ds = [] := by
  induction ds using List.reverseRecOn with
  | nil => rfl
  | append_singleton ds d ih =>
    rw [length_concat] at h
    rw [countingParser_reported_concat, ih (by omega), countingEvents, if_pos (by omega),
      if_neg (by omega), if_neg (by omega)]
    rfl

/-- Behind it stand the two events of the head, body chunks, and what `next` says. -/
theorem countingParser_complete (hpos : 0 < headLen) {ds : List Bytes}
    (h : headLen ≤ ds.flatten.length) :
    ∃ h₁ h₂ later, (countingParser path headLen contentLength next).reported 0 ds
        = (.requestLine (bytes "PUT") path, h₁) :: (.headersComplete, h₂) :: later ∧
      ∀ ev ∈ later, ev.1 = .bodyChunk ∨ ∃ h len, ev.1 ∈ next h len := by
  induction ds using List.reverseRecOn with
  | nil => exact absurd hpos (Nat.not_lt.mpr h)
  | append_singleton ds d ih =>
    have hnext : ∀ ev ∈ (next ds.flatten.length d.length).map fun ev => (ev, ds.flatten.length),
        ev.1 = .bodyChunk ∨ ∃ h len, ev.1 ∈ next h len := by
      intro ev hev
      obtain ⟨ev, hnew, rfl⟩ := List.mem_map.mp hev
      exact .inr ⟨_, _, hnew⟩
    rw [countingParser_reported_concat]
    rw [length_concat] at h
    rw [if_pos h]
    by_cases hbefore : ds.flatten.length < headLen
    · rw [countingParser_early path headLen contentLength next hbefore, countingEvents, if_pos hbefore,
        if_pos h]
      exact ⟨_, _, _, rfl, hnext⟩
    · obtain ⟨h₁, h₂, later, hreported, hlater⟩ := ih (by omega)
      rw [hreported, countingEvents, if_neg hbefore]
      refine ⟨h₁, h₂, later ++ ([(.bodyChunk, ds.flatten.length)] ++ _), rfl, fun ev hev => ?_⟩
      rcases List.mem_append.mp hev with hold | hnew
      · exact hlater ev hold
      rcases List.mem_append.mp hnew with hchunk | hnew
      · exact .inl (List.mem_singleton.mp hchunk ▸ rfl)
      · exact hnext ev hnew

end

/-- **It meets what is asked of a parser.** -/
theorem countingParser_reports (path : Bytes) {head : Bytes} (hhead : head ≠ []) (rest : Bytes)
    (contentLength : Bytes) {next : ℕ → ℕ → List Http1Event} (hnext : ∀ h len, .error ∉ next h len) :
    (countingParser path head.length contentLength next).Reports 0 (bytes "PUT") path head rest 0 where
  early ds _ _ h := by
    rw [countingParser_early path head.length contentLength next h]
    exact List.nil_prefix
  complete ds _ _ h := by
    obtain ⟨h₁, h₂, later, hreported, hlater⟩ :=
      countingParser_complete path head.length contentLength next (List.length_pos_iff.mpr hhead) h
    refine ⟨h₁, h₂, later, hreported, rfl, fun ev hev herror => ?_⟩
    rcases hlater ev hev with hchunk | ⟨a, len, hev⟩
    · cases hchunk.symm.trans herror
    · exact hnext a len (herror ▸ hev)

def doorPath : Bytes := bytes "/api/v1/state/net.core/door"

def doorHead : Bytes :=
  bytes "PUT /api/v1/state/net.core/door HTTP/1.1" ++ crlf ++ bytes "Content-Length: 2" ++ crlf2

def doorEnv (next : ℕ → ℕ → List Http1Event) : ServeEnv ℕ Unit Unit :=
  { replyingEnv [] with parser := countingParser doorPath doorHead.length (bytes "2") next }

def doorServe : EdgeHttp1Serve ℕ := { freshServe with h1 := 0 }

/-- A put of two bytes, with more behind it. -/
def doorRequest {next : ℕ → ℕ → List Http1Event} (hnext : ∀ h len, .error ∉ next h len)
    (trailing : Bytes) (hroom : doorHead.length + 2 + trailing.length ≤ EDGE_HTTP_ACC_MAX) :
    PutRequest (doorEnv next).parser doorServe.h1 where
  path := doorPath
  head := doorHead
  body := bytes "{}"
  trailing
  fields := 0
  at_ := ⟨bytes "net.core", bytes "door", [], false⟩
  head_block := ⟨[bytes "PUT /api/v1/state/net.core/door HTTP/1.1", bytes "Content-Length: 2"], by decide,
    by decide, by decide⟩
  reports := countingParser_reports doorPath (by decide) _ (bytes "2") hnext
  names := by decide
  names_key := rfl
  length := ⟨bytes "2", countingParser_length .., by decide⟩
  body_ne := by decide
  room := by
    have hbody : (bytes "{}").length = 2 := by decide
    rw [List.length_append, List.length_append, hbody]
    omega

/-- The parser reports nothing of what is behind the body. -/
def quiet (_ _ : ℕ) : List Http1Event := []

theorem error_not_mem_quiet (h len : ℕ) : .error ∉ quiet h len := List.not_mem_nil

/-- A parser that says no more reports one head. -/
theorem doorRequest_oneHead (trailing : Bytes)
    (hroom : doorHead.length + 2 + trailing.length ≤ EDGE_HTTP_ACC_MAX) (ds : List Bytes) :
    (doorRequest error_not_mem_quiet trailing hroom).OneHead ds := by
  intro ev hev
  by_cases h : ds.flatten.length < doorHead.length
  · rw [show (doorEnv quiet).parser.reported doorServe.h1 ds = [] from
      countingParser_early doorPath doorHead.length (bytes "2") quiet h] at hev
    cases hev
  · obtain ⟨h₁, h₂, later, hreported, hlater⟩ :=
      countingParser_complete doorPath doorHead.length (bytes "2") quiet (by decide) (Nat.not_lt.mp h)
    rw [show (doorEnv quiet).parser.reported doorServe.h1 ds = _ from hreported] at hev
    rcases hlater ev hev with hchunk | ⟨a, len, hnext⟩
    · exact .inl hchunk
    · cases hnext

def doorPieces : List (Clock × Bytes) :=
  [(epoch, doorHead.take 60), (epoch, doorHead.drop 60 ++ [123]), (epoch, 125 :: crlf)]

/-- The last of the pieces puts the body. -/
theorem put_any_split_door :
    PutFed (doorRequest error_not_mem_quiet crlf (by decide))
      (storeWorld smallStore) 4096 smallStore [doorHead.take 60, doorHead.drop 60 ++ [123]] (125 :: crlf)
      (edgeHttp1ServeFeed ((doorEnv quiet).at_ epoch)
        (runFrom (feedPiece (doorEnv quiet) 4096) (doorServe, storeWorld smallStore)
          (doorPieces.take 2)).1
        (runFrom (feedPiece (doorEnv quiet) 4096) (doorServe, storeWorld smallStore)
          (doorPieces.take 2)).2
        (125 :: crlf) 4096) :=
  (put_any_split (doorRequest error_not_mem_quiet crlf (by decide))
    ⟨rfl, rfl, rfl⟩ (show (storeWorld smallStore).store = _ from rfl) (by decide) doorPieces (by decide)
    (by decide) (fun _ _ _ _ _ => doorRequest_oneHead crlf (by decide) _)
    (fun _ _ h => absurd h Bool.false_ne_true)).1 (doorPieces.take 2) (epoch, 125 :: crlf) [] rfl

/-- A request that follows the put. -/
def nextRequest : Bytes := bytes "GET /x HTTP/1.1" ++ crlf2

/-- The parser reports the second request line when all of it has come. -/
def pipelined (h len : ℕ) : List Http1Event :=
  if h + len = doorHead.length + 2 + nextRequest.length then [.requestLine (bytes "GET") (bytes "/x")]
  else []

theorem error_not_mem_pipelined (h len : ℕ) : .error ∉ pipelined h len := by
  unfold pipelined
  split_ifs <;> simp

/-- In one piece with the other request the put is not carried out. -/
theorem not_put_any_split_pipelined :
    ¬PutFed (doorRequest error_not_mem_pipelined nextRequest (by decide)) (storeWorld smallStore) 4096
      smallStore [] (doorHead ++ (bytes "{}" ++ nextRequest))
      (edgeHttp1ServeFeed ((doorEnv pipelined).at_ epoch) doorServe (storeWorld smallStore)
        (doorHead ++ (bytes "{}" ++ nextRequest)) 4096) := by
  intro hfed
  obtain ⟨-, -, hput, -⟩ := hfed.answers (by decide) (by decide)
  have hread := congrArg (Option.map fun st => (edgeStateGet st (bytes "net.core") (bytes "door") 16).toOption)
    hput
  exact absurd hread (by decide +kernel)

end Edgehost
