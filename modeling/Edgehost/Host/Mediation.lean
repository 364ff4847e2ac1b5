import Edgehost.Host.StreamLaws

/-!
# Complete mediation

What a request gets that its principal may not make: an answer in which nothing of the store, of the
packages or of a plugin shows, and no effect on any of them.

* `classify_of_state` — the access check and the router agree on what a state path asks for.
* `dispatch_denied`   — behind every route, a denied request is answered from what is open to all.
* `feed_denied`       — the same for a feed, whatever it holds.
-/

namespace Edgehost

variable {η P υ : Type*}

/-! ## What a route reaches -/

/-- What the state API does for a method: reading, listing, or a change. -/
def stateResource (method : Bytes) (isList : Bool) : EdgeAuthResource :=
  if method = bytes "GET" then if isList then .resStateList else .resStateGet
  else if method = bytes "PUT" then .resStatePut
  else if method = bytes "DELETE" then .resStateDelete
  else .resNone

/-- The resource that the route of a request reaches; `resNone` for what is open to all. -/
def routeResource (s : EdgeHttp1Serve η) (w : ServeWorld P υ) : EdgeAuthResource :=
  if (v1Host s w).isSome then .resOpenai
  else if edgeWsPathIsStream s.path then .resWsStream
  else
    match pathIsState s.path with
    | some p => stateResource s.method p.isList
    | none => if (pathIsPackages s.path).isSome then .resPackages else .resNone

/-- The principal is not authenticated, or may not use what the route reaches. -/
def Denied (s : EdgeHttp1Serve η) (w : ServeWorld P υ) : Prop :=
  ¬s.principal.authenticated ∨ edgeAuthRbacCheck (some s.principal) (routeResource s w) = .deny

/-- The check does not allow a denied request. -/
theorem Denied.check {s : EdgeHttp1Serve η} {w : ServeWorld P υ} (h : Denied s w) :
    edgeAuthRbacCheck (some s.principal) (routeResource s w) ≠ .allow := by
  rcases h with hauth | hdeny
  · unfold edgeAuthRbacCheck
    dsimp only
    rw [if_pos hauth]
    decide
  · rw [hdeny]
    decide

/-- **The access check and the router agree on what a state path asks for.** -/
theorem classify_of_state {path : Bytes} {p : StatePath} (h : pathIsState path = some p)
    (method : Bytes) (isList : Bool) :
    edgeAuthClassify method path isList = stateResource method isList := by
  have hfront : bytes "/api/v1/state/" <+: path := by
    unfold pathIsState at h
    obtain ⟨hpre, -⟩ := Option.ite_none_left_eq_some.mp h
    exact List.isPrefixOf_iff_prefix.mp (by simpa using hpre)
  obtain ⟨rest, rfl⟩ := hfront
  have h14 : (bytes "/api/v1/state/" ++ rest).take 14 = bytes "/api/v1/state/" :=
    List.take_left' (by decide)
  have hshort : ∀ n ≤ 14, (bytes "/api/v1/state/" ++ rest).take n = (bytes "/api/v1/state/").take n :=
    fun n hn => List.take_append_of_le_length hn
  have hv1 : bytes "/api/v1/state/" ++ rest ≠ bytes "/v1" := fun heq => by
    have := congrArg List.length heq
    rw [List.length_append, show (bytes "/api/v1/state/").length = 14 by decide,
      show (bytes "/v1").length = 3 by decide] at this
    omega
  unfold edgeAuthClassify stateResource
  rw [h14, hshort 9 (by decide), hshort 4 (by decide),
    if_neg (show ¬(bytes "/api/v1/state/" = bytes "/api/v1/stream" ∧ _) from
      fun h => absurd h.1 (by decide)),
    if_neg (show ¬((bytes "/api/v1/state/").take 9 = bytes "/packages" ∧ _) from
      fun h => absurd h.1 (by decide)),
    if_neg (show ¬((bytes "/api/v1/state/").take 4 = bytes "/v1/" ∨ _) from
      fun h => h.elim (by decide) hv1)]
  simp only [true_and]

/-! ## Answers that show nothing -/

/-- Two answers to one request, of processes `w` and `w'`: they say the same, and both leave their
process as it was, but for the counters. -/
structure Inert (s : EdgeHttp1Serve η) (w w' : ServeWorld P υ) (r r' : Served η P υ) : Prop where
  world : ∃ m, r.world = { w with metrics := m } ∧ r'.world = { w' with metrics := m }
  serve : r'.serve = r.serve
  ret : r'.ret = r.ret
  out : r'.out = r.out
  upgrade : r.serve.wsUpgrade = s.wsUpgrade

/-- An answer shows nothing of the process. -/
theorem answerEx_inert {s s₁ : EdgeHttp1Serve η} {w w' : ServeWorld P υ}
    (hm : w'.metrics = w.metrics) (hs : s₁.wsUpgrade = s.wsUpgrade) (outCap : ℕ) (status : ℤ)
    (reason ctype extra body : Bytes) :
    Inert s w w' (answerEx s₁ w outCap status reason ctype extra body)
      (answerEx s₁ w' outCap status reason ctype extra body) := by
  unfold answerEx
  cases buildResponseEx outCap status reason ctype extra body with
  | none => exact ⟨⟨w.metrics, rfl, by rw [← hm]⟩, rfl, rfl, rfl, hs⟩
  | some out => exact ⟨⟨_, rfl, by rw [hm]⟩, rfl, rfl, rfl, hs⟩

theorem answer_inert {s s₁ : EdgeHttp1Serve η} {w w' : ServeWorld P υ}
    (hm : w'.metrics = w.metrics) (hs : s₁.wsUpgrade = s.wsUpgrade) (outCap : ℕ) (status : ℤ)
    (reason ctype body : Bytes) :
    Inert s w w' (answer s₁ w outCap status reason ctype body)
      (answer s₁ w' outCap status reason ctype body) :=
  answerEx_inert hm hs outCap status reason ctype [] body

theorem failed_inert {s s₁ : EdgeHttp1Serve η} {w w' : ServeWorld P υ}
    (hm : w'.metrics = w.metrics) (hs : s₁.wsUpgrade = s.wsUpgrade) (ret : ℤ) :
    Inert s w w' ⟨s₁, w, ret, []⟩ ⟨s₁, w', ret, []⟩ :=
  ⟨⟨w.metrics, rfl, by rw [← hm]⟩, rfl, rfl, rfl, hs⟩

theorem serveStatic_inert {s : EdgeHttp1Serve η} {w w' : ServeWorld P υ} {next next' : Served η P υ}
    (hm : w'.metrics = w.metrics) (file : Option Bytes) (hnext : Inert s w w' next next') :
    Inert s w w' (serveStatic s w file next) (serveStatic s w' file next') := by
  unfold serveStatic
  cases file with
  | none => exact hnext
  | some out => exact ⟨⟨_, rfl, by rw [hm]⟩, rfl, rfl, rfl, rfl⟩

theorem finishServed_inert {s : EdgeHttp1Serve η} {w w' : ServeWorld P υ} {r r' : Served η P υ}
    (h : Inert s w w' r r') : Inert s w w' (finishServed r) (finishServed r') := by
  unfold finishServed
  rw [h.ret]
  split_ifs
  · exact ⟨h.world, by rw [h.serve], rfl, h.out, h.upgrade⟩
  · exact h

/-- Nor does the gate. -/
theorem requireRbac_inert {s : EdgeHttp1Serve η} {w w' : ServeWorld P υ}
    (hm : w'.metrics = w.metrics) (outCap : ℕ) (res : EdgeAuthResource) :
    Option.Rel (Inert s w w') (requireRbac s w outCap res) (requireRbac s w' outCap res) := by
  unfold requireRbac
  split_ifs
  · exact .none
  · exact .some (answer_inert hm rfl ..)
  · exact .some (answer_inert hm rfl ..)
  · exact .none

/-- What the gate refuses it refuses in both processes, in the same words. -/
theorem requireRbac_denied {s : EdgeHttp1Serve η} {w w' : ServeWorld P υ}
    (hm : w'.metrics = w.metrics) (outCap : ℕ) {res : EdgeAuthResource} (h : Blocked s res) :
    ∃ r r', requireRbac s w outCap res = some r ∧ requireRbac s w' outCap res = some r' ∧
      Inert s w w' r r' := by
  obtain ⟨r, hr⟩ := Option.isSome_iff_exists.mp ((requireRbac_isSome_iff s w outCap res).mpr h)
  obtain ⟨r', hr'⟩ := Option.isSome_iff_exists.mp ((requireRbac_isSome_iff s w' outCap res).mpr h)
  have hrel := requireRbac_inert (s := s) hm outCap res
  rw [hr, hr'] at hrel
  cases hrel with
  | some hinert => exact ⟨r, r', hr, hr', hinert⟩

/-! ## Two runs -/

section

variable (env : ServeEnv η P υ) (vtbl : P → Option (EdgePluginVtbl υ)) (files : Files)

/-- The same surroundings with other code of the plugins and other files. -/
def ServeEnv.other : ServeEnv η P υ := { env with vtbl, files }

/-- The login reads neither the store nor the files, and runs no plugin. -/
theorem dispatchLabLogin_inert (s : EdgeHttp1Serve η) {w w' : ServeWorld P υ}
    (hm : w'.metrics = w.metrics) (outCap : ℕ) :
    Option.Rel (Inert s w w') (dispatchLabLogin env s w outCap)
      (dispatchLabLogin (env.other vtbl files) s w' outCap) := by
  unfold dispatchLabLogin
  split_ifs
  · exact .none
  · exact .some (answer_inert hm rfl ..)
  cases s.auth.filter fun auth => auth.mode = .modeLabPassword with
  | none => exact .some (answer_inert hm rfl ..)
  | some auth =>
    -- Up to here only the body was looked for.
    obtain ⟨off, hwait⟩ := waitFullBody_eq s
    obtain ⟨off', hbody⟩ := locateBody_eq (waitFullBody s).1
    have hs : (waitFullBody s).1.wsUpgrade = s.wsUpgrade := by rw [hwait]
    have hs' : (getBody (waitFullBody s).1).1.wsUpgrade = s.wsUpgrade := by
      rw [getBody, hbody]
      exact hs
    dsimp only
    split_ifs
    · exact .none
    cases edgeAuthParseLoginPassword (getBody (waitFullBody s).1).2 EDGE_AUTH_PASSWORD_MAX with
    | none => exact .some (answer_inert hm hs' ..)
    | some password =>
      dsimp only
      split_ifs
      · exact .some (answer_inert hm hs' ..)
      rw [show (env.other vtbl files).clock = env.clock from rfl]
      cases edgeAuthSessionIssue (some auth) env.clock (some (bytes "lab")) EdgeRole.employee.bit
          EDGE_AUTH_COOKIE_MAX with
      | none => exact .some (answer_inert hm hs' ..)
      | some issued =>
        dsimp only
        split_ifs
        · refine .some (failed_inert hm ?_ _)
          exact hs'
        · refine .some (answerEx_inert hm ?_ ..)
          exact hs'

/-- Nor does `/auth/me`. -/
theorem dispatchAuthMe_inert (s : EdgeHttp1Serve η) {w w' : ServeWorld P υ}
    (hm : w'.metrics = w.metrics) (outCap : ℕ) :
    Option.Rel (Inert s w w') (dispatchAuthMe s w outCap) (dispatchAuthMe s w' outCap) := by
  unfold dispatchAuthMe
  dsimp only
  split_ifs
  · exact .none
  · exact .some (answer_inert hm rfl ..)
  · exact .some (answer_inert hm rfl ..)
  · exact .some (failed_inert hm rfl _)
  · exact .some (answer_inert hm rfl ..)
  · exact .some (failed_inert hm rfl _)
  · exact .some (answer_inert hm rfl ..)

/-- What a route reaches that the principal may not use is behind the gate. -/
theorem Denied.blocked {s : EdgeHttp1Serve η} {w : ServeWorld P υ} (henf : authEnforced s)
    (h : Denied s w) (hres : routeResource s w ≠ .resNone) : Blocked s (routeResource s w) :=
  ⟨henf, hres, h.check⟩

/-- A denied request does not come to a plugin. -/
theorem dispatchV1_denied {s : EdgeHttp1Serve η} {w w' : ServeWorld P υ} {h : EdgePluginHost P}
    (hm : w'.metrics = w.metrics) (henf : authEnforced s) (hblocked : Blocked s .resOpenai)
    (outCap : ℕ) :
    Inert s w w' (dispatchV1 env s w outCap h)
      (dispatchV1 (env.other vtbl files) s w' outCap h) := by
  unfold dispatchV1
  cases edgePluginHostMatch h s.path with
  | none => exact answer_inert hm rfl ..
  | some p =>
    dsimp only
    rw [if_pos henf]
    obtain ⟨r, r', hr, hr', hinert⟩ := requireRbac_denied hm outCap hblocked
    rw [hr, hr']
    exact hinert

/-- Nor does it join the stream. -/
theorem dispatchStream_denied {s : EdgeHttp1Serve η} {w w' : ServeWorld P υ}
    (hm : w'.metrics = w.metrics) (hblocked : Blocked s .resWsStream) (outCap : ℕ) :
    Inert s w w' (dispatchStream env s w outCap)
      (dispatchStream (env.other vtbl files) s w' outCap) := by
  unfold dispatchStream
  obtain ⟨r, r', hr, hr', hinert⟩ := requireRbac_denied hm outCap hblocked
  rw [hr, hr']
  exact hinert

/-- A denied request for a state path: the gate, or a method that the API does not take. -/
theorem dispatchState_denied {s : EdgeHttp1Serve η} {w w' : ServeWorld P υ} {p : StatePath}
    (hm : w'.metrics = w.metrics) (hstore : w'.store.isSome = w.store.isSome)
    (hpath : pathIsState s.path = some p)
    (hblocked : stateResource s.method p.isList ≠ .resNone →
      Blocked s (stateResource s.method p.isList)) (outCap : ℕ) :
    ∃ r r', dispatchState env s w outCap = some r ∧
      dispatchState (env.other vtbl files) s w' outCap = some r' ∧ Inert s w w' r r' := by
  unfold dispatchState
  rw [hpath]
  dsimp only
  rw [classify_of_state hpath]
  by_cases hres : stateResource s.method p.isList = .resNone
  · have hopen : ∀ w : ServeWorld P υ,
        requireRbac s w outCap (stateResource s.method p.isList) = none := fun w => by
      rw [requireRbac, hres, if_pos (by simp)]
    rw [hopen, hopen]
    dsimp only
    unfold stateResource at hres
    split_ifs at hres with hget hlist hput hdelete
    rcases hst : w.store with _ | st <;> rcases hst' : w'.store with _ | st'
    · exact ⟨_, _, rfl, rfl, answer_inert hm rfl ..⟩
    · rw [hst, hst'] at hstore
      exact nomatch hstore
    · rw [hst, hst'] at hstore
      exact nomatch hstore
    · dsimp only
      rw [if_neg hget, if_neg hput, if_neg hdelete, if_neg hget, if_neg hput, if_neg hdelete]
      exact ⟨_, _, rfl, rfl, answer_inert hm rfl ..⟩
  · obtain ⟨r, r', hr, hr', hinert⟩ := requireRbac_denied hm outCap (hblocked hres)
    rw [hr, hr']
    exact ⟨r, r', rfl, rfl, hinert⟩

/-- The files are the same below a document root, if there is one. -/
def SameBelow (root : Option Bytes) (files files' : Files) : Prop :=
  ∀ r, root.filter (· ≠ []) = some r → ∀ path, UnderRoot r path → files path = files' path

/-- A file below a root depends on the files below it. -/
theorem tryStatic_other {root : Option Bytes} (hfiles : SameBelow root env.files files)
    (urlPath : Bytes) (maxFile outCap : ℕ) :
    tryStatic (env.other vtbl files) root urlPath maxFile outCap
      = tryStatic env root urlPath maxFile outCap := by
  unfold tryStatic
  cases root with
  | none => rfl
  | some root =>
    dsimp only
    by_cases hroot : root = []
    · rw [if_pos (.inl hroot), if_pos (.inl hroot)]
    · rw [edgeStaticLoad_congr (hfiles root (by simp [hroot]))]
      rfl

/-- The application is served from the files below its root. -/
theorem dispatchSpa_inert (s : EdgeHttp1Serve η) {w w' : ServeWorld P υ}
    (hm : w'.metrics = w.metrics)
    (hfiles : SameBelow s.roots.spaRoot env.files files)
    (outCap : ℕ) :
    Inert s w w' (dispatchSpa env s w outCap) (dispatchSpa (env.other vtbl files) s w' outCap) := by
  unfold dispatchSpa
  by_cases hspa : s.roots.spaRoot.getD [] ≠ []
  · rw [if_pos hspa, if_pos hspa]
    dsimp only
    generalize (if s.path = [] then [slash] else s.path) = url
    rw [tryStatic_other env vtbl files hfiles, tryStatic_other env vtbl files hfiles]
    refine serveStatic_inert hm _ ?_
    split_ifs
    · exact answer_inert hm rfl ..
    · exact serveStatic_inert hm _ (answer_inert hm rfl ..)
  · rw [if_neg hspa, if_neg hspa]
    split_ifs
    · exact answer_inert hm rfl ..
    · exact answer_inert hm rfl ..

/-- A denied request reads no package. -/
theorem dispatchGet_denied {s : EdgeHttp1Serve η} {w w' : ServeWorld P υ}
    (hm : w'.metrics = w.metrics)
    (hblocked : (pathIsPackages s.path).isSome → Blocked s .resPackages)
    (hfiles : SameBelow s.roots.spaRoot env.files files)
    (outCap : ℕ) :
    Inert s w w' (dispatchGet env s w outCap) (dispatchGet (env.other vtbl files) s w' outCap) := by
  unfold dispatchGet
  split_ifs
  · exact answer_inert hm rfl ..
  · unfold dispatchHealth
    rw [hm, show (env.other vtbl files).clock = env.clock from rfl]
    cases edgeMetricsFormatHealthJson (w.metrics.getD (edgeMetricsInit env.clock)) env.clock 512 with
    | none => exact answer_inert hm rfl ..
    | some json => exact answer_inert hm rfl ..
  · cases hpackages : pathIsPackages s.path with
    | none => exact dispatchSpa_inert env vtbl files s hm hfiles outCap
    | some suffix =>
      dsimp only
      unfold dispatchPackages
      obtain ⟨r, r', hr, hr', hinert⟩ :=
        requireRbac_denied hm outCap (hblocked (by rw [hpackages]; rfl))
      rw [hr, hr']
      exact hinert

/-- **Behind every route, a denied request is answered from what is open to all.** -/
theorem dispatch_denied {s : EdgeHttp1Serve η} {w w' : ServeWorld P υ}
    (hm : w'.metrics = w.metrics) (hstore : w'.store.isSome = w.store.isSome)
    (hplugins : w'.plugins = w.plugins) (henf : authEnforced s) (hdenied : Denied s w)
    (hfiles : SameBelow s.roots.spaRoot env.files files)
    (outCap : ℕ) :
    Inert s w w' (dispatch env s w outCap) (dispatch (env.other vtbl files) s w' outCap) := by
  -- The routes are walked in the order of `dispatch`; where one is behind the gate, the request is blocked.
  have hreach : ∀ res, routeResource s w = res → res ≠ .resNone → Blocked s res := by
    rintro res rfl hres
    exact hdenied.blocked henf hres
  unfold routeResource at hreach
  have hlogin := dispatchLabLogin_inert env vtbl files s hm outCap
  have hme := dispatchAuthMe_inert s hm outCap
  unfold dispatch
  generalize dispatchLabLogin env s w outCap = login at hlogin ⊢
  generalize dispatchLabLogin (env.other vtbl files) s w' outCap = login' at hlogin ⊢
  cases hlogin with
  | some hinert => exact hinert
  | none =>
    generalize dispatchAuthMe s w outCap = me at hme ⊢
    generalize dispatchAuthMe s w' outCap = me' at hme ⊢
    cases hme with
    | some hinert => exact hinert
    | none =>
      dsimp only
      rw [show v1Host s w' = v1Host s w by rw [v1Host, v1Host, hplugins]]
      cases hhost : v1Host s w with
      | some h =>
        rw [hhost, Option.isSome_some, if_pos rfl] at hreach
        exact dispatchV1_denied env vtbl files hm henf (hreach _ rfl (by decide)) outCap
      | none =>
        rw [hhost, Option.isSome_none, if_neg Bool.false_ne_true] at hreach
        dsimp only
        unfold dispatchApi
        by_cases hstream : edgeWsPathIsStream s.path
        · rw [if_pos hstream] at hreach
          rw [if_pos hstream, if_pos hstream]
          exact dispatchStream_denied env vtbl files hm (hreach _ rfl (by decide)) outCap
        · rw [if_neg hstream] at hreach
          rw [if_neg hstream, if_neg hstream]
          cases hpath : pathIsState s.path with
          | some p =>
            rw [hpath] at hreach
            obtain ⟨r, r', hr, hr', hinert⟩ :=
              dispatchState_denied env vtbl files hm hstore hpath (hreach _ rfl) outCap
            rw [hr, hr']
            exact hinert
          | none =>
            have hnone : ∀ (env : ServeEnv η P υ) (w : ServeWorld P υ),
                dispatchState env s w outCap = none := fun env w => by
              rw [dispatchState, hpath]
            rw [hpath] at hreach
            rw [hnone, hnone]
            refine dispatchGet_denied env vtbl files hm (fun hsome => ?_) hfiles outCap
            exact hreach _ (if_pos hsome) (by decide)

/-! ## Feeds -/

theorem Inert.of_upgrade {s s₀ : EdgeHttp1Serve η} {w w' : ServeWorld P υ} {r r' : Served η P υ}
    (h : Inert s w w' r r') (hs : s.wsUpgrade = s₀.wsUpgrade) : Inert s₀ w w' r r' :=
  ⟨h.world, h.serve, h.ret, h.out, h.upgrade.trans hs⟩

/-- What of a connection the parser's events do not touch. -/
theorem onEvents_keeps (evs : List (Http1Event × η)) (s : EdgeHttp1Serve η) (hub : Option EdgeWsHub) :
    (onEvents env evs s hub).1.auth = s.auth ∧ (onEvents env evs s hub).1.roots = s.roots
      ∧ (onEvents env evs s hub).1.wsUpgrade = s.wsUpgrade := by
  induction evs generalizing s hub with
  | nil => exact ⟨rfl, rfl, rfl⟩
  | cons ev evs ih =>
    obtain ⟨ev, h1⟩ := ev
    cases ev with
    | error => exact ⟨rfl, rfl, rfl⟩
    | requestLine method path => exact ih _ hub
    | headersComplete =>
      obtain ⟨off, hoff⟩ := markBodyOff_eq { s with headersDone := true }
      obtain ⟨hauth, hroots, hupgrade⟩ := ih (onHeaders env s hub h1).1 (onHeaders env s hub h1).2
      have hkeeps : (onHeaders env s hub h1).1.auth = s.auth
          ∧ (onHeaders env s hub h1).1.roots = s.roots
          ∧ (onHeaders env s hub h1).1.wsUpgrade = s.wsUpgrade := by
        unfold onHeaders
        rw [hoff]
        exact ⟨rfl, rfl, rfl⟩
      exact ⟨hauth.trans hkeeps.1, hroots.trans hkeeps.2.1, hupgrade.trans hkeeps.2.2⟩
    | bodyChunk => exact ih s hub

/-- Within one process the two answers are one. -/
theorem Inert.eq {s : EdgeHttp1Serve η} {w : ServeWorld P υ} {r r' : Served η P υ}
    (h : Inert s w w r r') : r' = r := by
  obtain ⟨⟨m, hr, hr'⟩, hserve, hret, hout, -⟩ := h
  cases r
  cases r'
  exact Served.mk.injEq .. ▸ ⟨hserve, hr'.trans hr.symm, hret, hout⟩

/-- Only what the processes hold beside their counters matters. -/
theorem Inert.of_metrics {s : EdgeHttp1Serve η} {w w' w₁ w₁' : ServeWorld P υ} {r r' : Served η P υ}
    (h : Inert s w₁ w₁' r r') (hw : ∀ m, { w₁ with metrics := m } = { w with metrics := m })
    (hw' : ∀ m, { w₁' with metrics := m } = { w' with metrics := m }) : Inert s w w' r r' := by
  obtain ⟨m, hr, hr'⟩ := h.world
  exact ⟨⟨m, hr.trans (hw m), hr'.trans (hw' m)⟩, h.serve, h.ret, h.out, h.upgrade⟩

/-- The parser's events are handled without plugins and files. -/
theorem onEvents_other (evs : List (Http1Event × η)) (s : EdgeHttp1Serve η)
    (hub : Option EdgeWsHub) : onEvents (env.other vtbl files) evs s hub = onEvents env evs s hub := by
  induction evs generalizing s hub with
  | nil => rfl
  | cons ev evs ih =>
    obtain ⟨ev, h1⟩ := ev
    cases ev with
    | error => rfl
    | requestLine method path => exact ih _ hub
    | headersComplete => exact ih (onHeaders env s hub h1).1 (onHeaders env s hub h1).2
    | bodyChunk => exact ih s hub

theorem feedParser_other (s : EdgeHttp1Serve η) (hub : Option EdgeWsHub) (data : Bytes) :
    feedParser (env.other vtbl files) s hub data = feedParser env s hub data := by
  unfold feedParser
  rw [show (env.other vtbl files).parser = env.parser from rfl]
  dsimp only
  rw [onEvents_other]

theorem feedParser_keeps (s : EdgeHttp1Serve η) (hub : Option EdgeWsHub) (data : Bytes) :
    (feedParser env s hub data).1.auth = s.auth ∧ (feedParser env s hub data).1.roots = s.roots ∧
      (feedParser env s hub data).1.wsUpgrade = s.wsUpgrade :=
  onEvents_keeps env (env.parser.feedInput s.h1 data).1 { s with acc := s.acc ++ data } hub

/-- **A request that is denied when it is complete** is answered alike in both processes. -/
theorem feedParsed_denied {s : EdgeHttp1Serve η} {w w' : ServeWorld P υ}
    (hm : w'.metrics = w.metrics) (hstore : w'.store.isSome = w.store.isSome)
    (hplugins : w'.plugins = w.plugins) (henf : authEnforced s)
    (hdenied : ∀ s', readyRequest s = some s' → Denied s' w)
    (hfiles : SameBelow s.roots.spaRoot env.files files) (outCap : ℕ) :
    Inert s w w' (feedParsed env s w outCap) (feedParsed (env.other vtbl files) s w' outCap) := by
  cases hready : readyRequest s with
  | some s' =>
    rw [feedParsed_of_ready env w outCap hready, feedParsed_of_ready _ w' outCap hready]
    obtain ⟨off, hs'⟩ := readyRequest_eq hready
    have henf' : authEnforced s' := by rwa [hs']
    have hfiles' : SameBelow s'.roots.spaRoot env.files files := by rwa [hs']
    exact (finishServed_inert (dispatch_denied env vtbl files hm hstore hplugins henf'
      (hdenied s' hready) hfiles' outCap)).of_upgrade (by rw [hs'])
  | none =>
    obtain ⟨off, hwait⟩ := feedParsed_of_not_ready hready
    rw [hwait env, hwait (env.other vtbl files)]
    exact failed_inert hm (by rfl) _

/-- A denied feed that the parser gets. -/
theorem feedTaken_inert {s : EdgeHttp1Serve η} {w : ServeWorld P υ} {store' : Option StateStore}
    {data : Bytes} (hstore : store'.isSome = w.store.isSome) (henf : authEnforced s)
    (hdenied : ∀ r, feedRequest env s w data = some r → Denied r.1 r.2)
    (hfiles : SameBelow s.roots.spaRoot env.files files) (hdone : ¬s.done) (hdata : data ≠ [])
    (hroom : s.acc.length + data.length ≤ EDGE_HTTP_ACC_MAX) (outCap : ℕ) :
    ∃ hub, hub.map EdgeWsHub.subs = w.hub.map EdgeWsHub.subs ∧
      Inert s { w with hub } { w with store := store', hub }
        (edgeHttp1ServeFeed env s w data outCap)
        (edgeHttp1ServeFeed (env.other vtbl files) s { w with store := store' } data outCap) := by
  have hcount : ∀ hub, ({ countInput { w with store := store' } data with hub } : ServeWorld P υ).metrics
      = ({ countInput w data with hub } : ServeWorld P υ).metrics := fun _ => rfl
  have hfull : ¬s.acc.length + data.length > EDGE_HTTP_ACC_MAX := not_lt.mpr hroom
  unfold edgeHttp1ServeFeed
  rw [if_neg hdone, if_neg hdata, if_neg hdone, if_neg hdata]
  dsimp only
  rw [if_neg hfull, if_neg hfull, feedParser_other]
  have hsubs : (feedParser env s w.hub data).2.1.map EdgeWsHub.subs = w.hub.map EdgeWsHub.subs :=
    feedParser_subs ..
  have hkeeps := feedParser_keeps env s w.hub data
  have hrequest : ¬(feedParser env s w.hub data).2.2 → ∀ s',
      readyRequest (feedParser env s w.hub data).1 = some s' →
        Denied s' { countInput w data with hub := (feedParser env s w.hub data).2.1 } := by
    intro hgood s' hready
    exact hdenied (s', _) (feedRequest_eq_some_iff.mpr ⟨⟨hdone, hdata, hroom⟩, hgood, hready, rfl⟩)
  rw [show (countInput w data).hub = w.hub from rfl,
    show (countInput { w with store := store' } data).hub = w.hub from rfl]
  generalize feedParser env s w.hub data = parsed at hsubs hkeeps hrequest ⊢
  obtain ⟨s₁, hub, bad⟩ := parsed
  obtain ⟨hauth, hroots, hupgrade⟩ := hkeeps
  dsimp only at hsubs hauth hroots hupgrade hrequest ⊢
  refine ⟨hub, hsubs, ?_⟩
  cases bad with
  | true =>
    rw [if_pos rfl, if_pos rfl]
    have hinert := finishServed_inert
      (answer_inert (hcount hub) hupgrade outCap 400 (bytes "Bad Request")
        (bytes "text/plain") (bytes "bad request\n"))
    exact hinert.of_metrics (fun _ => rfl) fun _ => rfl
  | false =>
    rw [if_neg Bool.false_ne_true, if_neg Bool.false_ne_true]
    have henf₁ : authEnforced s₁ := by rwa [authEnforced, hauth]
    have hfiles₁ : SameBelow s₁.roots.spaRoot env.files files := by rwa [hroots]
    have hinert := feedParsed_denied env vtbl files (hcount hub) hstore rfl henf₁
      (hrequest Bool.false_ne_true) hfiles₁ outCap
    exact (hinert.of_upgrade hupgrade).of_metrics (fun _ => rfl) fun _ => rfl

/-- **A denied feed gets an answer in which nothing protected shows, and changes nothing but the
counters and the request id that the hub gives out next.** -/
theorem feed_inert {s : EdgeHttp1Serve η} {w : ServeWorld P υ} {store' : Option StateStore}
    {data : Bytes} (hstore : store'.isSome = w.store.isSome) (henf : authEnforced s)
    (hdenied : ∀ r, feedRequest env s w data = some r → Denied r.1 r.2)
    (hfiles : SameBelow s.roots.spaRoot env.files files) (outCap : ℕ) :
    ∃ hub, hub.map EdgeWsHub.subs = w.hub.map EdgeWsHub.subs ∧
      Inert s { w with hub } { w with store := store', hub }
        (edgeHttp1ServeFeed env s w data outCap)
        (edgeHttp1ServeFeed (env.other vtbl files) s { w with store := store' } data outCap) := by
  have hm : ({ w with store := store' } : ServeWorld P υ).metrics = w.metrics := rfl
  by_cases hdone : s.done
  · unfold edgeHttp1ServeFeed
    rw [if_pos hdone, if_pos hdone]
    exact ⟨w.hub, rfl, failed_inert hm rfl _⟩
  by_cases hdata : data = []
  · unfold edgeHttp1ServeFeed
    rw [if_neg hdone, if_pos hdata, if_neg hdone, if_pos hdata]
    exact ⟨w.hub, rfl, failed_inert hm rfl _⟩
  by_cases hroom : s.acc.length + data.length > EDGE_HTTP_ACC_MAX
  · unfold edgeHttp1ServeFeed
    rw [if_neg hdone, if_neg hdata, if_neg hdone, if_neg hdata]
    dsimp only
    rw [if_pos hroom, if_pos hroom]
    have hcount : (countInput { w with store := store' } data).metrics = (countInput w data).metrics :=
      rfl
    have hinert := finishServed_inert
      (answer_inert (s := s) hcount rfl outCap 413 (bytes "Payload Too Large")
        (bytes "text/plain") (bytes "request too large\n"))
    exact ⟨w.hub, rfl, hinert.of_metrics (fun _ => rfl) fun _ => rfl⟩
  exact feedTaken_inert env vtbl files hstore henf hdenied hfiles hdone hdata (not_lt.mp hroom) outCap

end

/-! ## Complete mediation -/

/-- Two file systems that differ only in the packages, which have no path in common with the SPA. -/
structure SameButPackages (roots : EdgeHttp1Docroot) (files files' : Files) : Prop where
  differ : ∀ path, files path ≠ files' path →
    ∃ r, roots.packagesRoot.filter (· ≠ []) = some r ∧ UnderRoot r path
  disjoint : ∀ spa packages path, roots.spaRoot.filter (· ≠ []) = some spa →
    roots.packagesRoot.filter (· ≠ []) = some packages → UnderRoot spa path →
      ¬UnderRoot packages path

/-- The files of the application are among those that are the same. -/
theorem SameButPackages.spa {roots : EdgeHttp1Docroot} {files files' : Files}
    (h : SameButPackages roots files files') : SameBelow roots.spaRoot files files' := by
  intro spa hspa path hpath
  by_contra hne
  obtain ⟨packages, hpackages, hunder⟩ := h.differ path hne
  exact h.disjoint spa packages path hspa hpackages hpath hunder

/-- A feed without effect on what access checks protect, and without a trace of it: the store, the
queues of the hub and the plugins stay as they are, the code of the plugins does not matter, no stream
is opened, and the response is the same whatever the store and the packages hold. -/
structure Mediated (env : ServeEnv η P υ) (s : EdgeHttp1Serve η) (w : ServeWorld P υ) (data : Bytes)
    (outCap : ℕ) : Prop where
  store : (edgeHttp1ServeFeed env s w data outCap).world.store = w.store
  queues : (edgeHttp1ServeFeed env s w data outCap).world.hub.map EdgeWsHub.subs
    = w.hub.map EdgeWsHub.subs
  plugins : (edgeHttp1ServeFeed env s w data outCap).world.plugins = w.plugins
  mem : (edgeHttp1ServeFeed env s w data outCap).world.mem = w.mem
  onHttp : ∀ vtbl, edgeHttp1ServeFeed { env with vtbl } s w data outCap
    = edgeHttp1ServeFeed env s w data outCap
  upgrade : (edgeHttp1ServeFeed env s w data outCap).serve.wsUpgrade = s.wsUpgrade
  response : ∀ files store', SameButPackages s.roots env.files files →
    store'.isSome = w.store.isSome →
      (edgeHttp1ServeFeed { env with files } s { w with store := store' } data outCap).ret
          = (edgeHttp1ServeFeed env s w data outCap).ret
        ∧ (edgeHttp1ServeFeed { env with files } s { w with store := store' } data outCap).out
          = (edgeHttp1ServeFeed env s w data outCap).out

/-- **Complete mediation**: under an enforced mode, a feed whose request is denied is mediated. -/
theorem feed_denied {env : ServeEnv η P υ} {s : EdgeHttp1Serve η} {w : ServeWorld P υ} {data : Bytes}
    (henf : authEnforced s) (hdenied : ∀ r, feedRequest env s w data = some r → Denied r.1 r.2)
    (outCap : ℕ) : Mediated env s w data outCap := by
  have hsame : SameBelow s.roots.spaRoot env.files env.files := fun _ _ _ _ => rfl
  obtain ⟨hub, hsubs, hself⟩ := feed_inert env env.vtbl env.files rfl henf hdenied hsame outCap
  obtain ⟨m, hworld, -⟩ := hself.world
  refine ⟨by rw [hworld], by rw [hworld]; exact hsubs, by rw [hworld], by rw [hworld], fun vtbl => ?_,
    hself.upgrade, fun files store' hfiles hstore => ?_⟩
  · obtain ⟨_, _, hother⟩ := feed_inert env vtbl env.files rfl henf hdenied hsame outCap
    exact hother.eq
  · obtain ⟨_, _, hother⟩ :=
      feed_inert env env.vtbl files hstore henf hdenied hfiles.spa outCap
    exact ⟨hother.ret, hother.out⟩

/-- A connection under a lab password. -/
def guardedServe : EdgeHttp1Serve Unit :=
  { freshServe with auth := some ⟨.modeLabPassword, bytes "pw", bytes "key", [], 0, 0, 0⟩ }

/-- A request for the models without a session. -/
theorem guarded_models :
    Mediated (replyingEnv (bytes "ok")) guardedServe replyingWorld [71]
      (sendCap edgeConfigDefaults) := by
  refine feed_denied (by decide) ?_ _
  rintro r hr
  obtain rfl := Option.some.inj hr
  exact .inl (by decide)

end Edgehost
