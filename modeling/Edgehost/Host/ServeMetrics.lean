import Edgehost.Host.Http1Serve

/-!
# The counter of live connections while requests are served

The parser and the routes count requests, responses and bytes. None of them touches
`active_conns`, which belongs to the event loop alone.

* `edgeHttp1ServeFeed_active` — a feed leaves it as it is.
-/

namespace Edgehost

variable {η P υ : Type*}

/-- The counter of live connections. -/
def ServeWorld.active (w : ServeWorld P υ) : Option UInt64 := w.metrics.map EdgeMetrics.activeConns

/-- Counting something else. -/
theorem active_count {w : ServeWorld P υ} {f : EdgeMetrics → EdgeMetrics}
    (hf : ∀ m, (f m).activeConns = m.activeConns) :
    ({ w with metrics := w.metrics.map f } : ServeWorld P υ).active = w.active := by
  rw [ServeWorld.active, ServeWorld.active, Option.map_map]
  exact congrFun (congrArg Option.map (funext hf)) w.metrics

/-- A response is counted in other counters. -/
theorem noteResponse_active (w : ServeWorld P υ) (status : ℤ) :
    ({ w with metrics := noteResponse w.metrics status } : ServeWorld P υ).active = w.active := by
  refine active_count fun m => ?_
  simp only
  split_ifs <;> rfl

/-- An answer counts its response, if it fits. -/
theorem answerEx_active (s : EdgeHttp1Serve η) (w : ServeWorld P υ) (outCap : ℕ) (status : ℤ)
    (reason ctype extra body : Bytes) :
    (answerEx s w outCap status reason ctype extra body).world.active = w.active := by
  unfold answerEx
  cases buildResponseEx outCap status reason ctype extra body with
  | none => rfl
  | some out => exact noteResponse_active w status

theorem answer_active (s : EdgeHttp1Serve η) (w : ServeWorld P υ) (outCap : ℕ) (status : ℤ)
    (reason ctype body : Bytes) :
    (answer s w outCap status reason ctype body).world.active = w.active :=
  answerEx_active s w outCap status reason ctype [] body

/-- An answer, if there is one, leaves the counter as it is. -/
def Unmoved (w : ServeWorld P υ) (answered : Option (Served η P υ)) : Prop :=
  ∀ r ∈ answered, r.world.active = w.active

/-- The route is not for this request. -/
theorem Unmoved.none {w : ServeWorld P υ} : Unmoved w (none : Option (Served η P υ)) :=
  fun _ h => absurd h (by simp)

/-- The route has answered. -/
theorem Unmoved.some {w : ServeWorld P υ} {r : Served η P υ} (h : r.world.active = w.active) :
    Unmoved w (some r) := fun _ hr => Option.some.inj hr ▸ h

theorem Unmoved.get {w : ServeWorld P υ} {r : Served η P υ} (h : Unmoved w (Option.some r)) :
    r.world.active = w.active := h r rfl

/-- A refusal is an answer. -/
theorem requireRbac_active (s : EdgeHttp1Serve η) (w : ServeWorld P υ) (outCap : ℕ)
    (res : EdgeAuthResource) : Unmoved w (requireRbac s w outCap res) := by
  unfold requireRbac
  split_ifs
  · exact .none
  · exact .some (answer_active ..)
  · exact .some (answer_active ..)
  · exact .none

/-! ## The routes -/

/-- `POST /auth/lab-login`: the answer that sets the cookie, and all the refusals before it. -/
theorem dispatchLabLogin_active (env : ServeEnv η P υ) (s : EdgeHttp1Serve η) (w : ServeWorld P υ)
    (outCap : ℕ) : Unmoved w (dispatchLabLogin env s w outCap) := by
  unfold dispatchLabLogin
  split_ifs
  · exact .none
  · exact .some (answer_active ..)
  cases s.auth.filter fun auth => auth.mode = .modeLabPassword with
  | none => exact .some (answer_active ..)
  | some auth =>
    dsimp only
    split_ifs
    · exact .none
    cases edgeAuthParseLoginPassword (getBody (waitFullBody s).1).2 EDGE_AUTH_PASSWORD_MAX with
    | none => exact .some (answer_active ..)
    | some password =>
      dsimp only
      split_ifs
      · exact .some (answer_active ..)
      -- The password is the right one: a session is issued.
      cases edgeAuthSessionIssue (some auth) env.clock (some (bytes "lab")) EdgeRole.employee.bit
          EDGE_AUTH_COOKIE_MAX with
      | none => exact .some (answer_active ..)
      | some issued =>
        dsimp only
        split_ifs
        · exact .some rfl
        · exact .some (answerEx_active ..)

/-- `GET /auth/me`. -/
theorem dispatchAuthMe_active (s : EdgeHttp1Serve η) (w : ServeWorld P υ) (outCap : ℕ) :
    Unmoved w (dispatchAuthMe s w outCap) := by
  unfold dispatchAuthMe
  split_ifs
  · exact .none
  · exact .some (answer_active ..)
  · exact .some (answer_active ..)
  all_goals
    dsimp only
    split_ifs
    · exact .some rfl
    · exact .some (answer_active ..)

/-- The upgrade of a request to the stream; the connection itself is promoted elsewhere. -/
theorem dispatchStream_active (env : ServeEnv η P υ) (s : EdgeHttp1Serve η) (w : ServeWorld P υ)
    (outCap : ℕ) : (dispatchStream env s w outCap).world.active = w.active := by
  have hrbac := requireRbac_active s w outCap .resWsStream
  unfold dispatchStream
  cases h : requireRbac s w outCap .resWsStream with
  | some denied => exact hrbac denied h
  | none =>
    dsimp only
    split_ifs
    · exact answer_active ..
    · exact answer_active ..
    · cases edgeWsBuild101 s.wsKey outCap with
      | none => exact answer_active ..
      | some out => exact active_count fun _ => rfl

/-- A key or a listing is read. -/
theorem stateGetRoute_active (s : EdgeHttp1Serve η) (w : ServeWorld P υ) (outCap : ℕ)
    (st : StateStore) (p : StatePath) :
    (stateGetRoute s w outCap st p).world.active = w.active := by
  unfold stateGetRoute
  by_cases hlist : p.isList
  · rw [if_pos hlist]
    cases edgeStateList st p.ns p.pfx 64 with
    | none => exact answer_active ..
    | some keys => exact answer_active ..
  · rw [if_neg hlist]
    cases edgeStateGet st p.ns p.key (EDGE_STATE_VALUE_MAX + 1) with
    | error e => exact answer_active ..
    | ok r => exact answer_active ..

/-- A put or a delete is answered. -/
theorem answerChange_active (env : ServeEnv η P υ) (s : EdgeHttp1Serve η) (w : ServeWorld P υ)
    (outCap : ℕ) (p : StatePath) (op : Bytes) (value : Option Bytes)
    (r : StateStore × EdgeStateErr) :
    (answerChange env s w outCap p op value r).world.active = w.active := by
  unfold answerChange
  simp only
  split_ifs
  · exact answer_active ..
  · exact answer_active ..

/-- The state API, by the outcome of the request. -/
theorem dispatchState_active (env : ServeEnv η P υ) (s : EdgeHttp1Serve η) (w : ServeWorld P υ)
    (outCap : ℕ) : Unmoved w (dispatchState env s w outCap) := by
  cases hpath : pathIsState s.path with
  | none =>
    rw [dispatchState, hpath]
    exact .none
  | some p =>
    have houtcome := dispatchState_outcome env w outCap hpath
    generalize dispatchState env s w outCap = out at houtcome ⊢
    cases houtcome with
    | denied hrbac => exact .some (requireRbac_active s w outCap _ _ hrbac)
    | unavailable => exact .some (answer_active ..)
    | get => exact .some (stateGetRoute_active ..)
    | badKey => exact .some (answer_active ..)
    | put =>
      unfold statePutRoute
      cases s.bodyOff with
      | none => exact .none
      | some off =>
        dsimp only
        split_ifs
        · exact .none
        · exact .some (answerChange_active ..)
    | delete => exact .some (answerChange_active ..)
    | method => exact .some (answer_active ..)

/-- The routes of the plugins. -/
theorem dispatchV1_active (env : ServeEnv η P υ) (s : EdgeHttp1Serve η) (w : ServeWorld P υ)
    (outCap : ℕ) (h : EdgePluginHost P) :
    (dispatchV1 env s w outCap h).world.active = w.active := by
  unfold dispatchV1
  cases edgePluginHostMatch h s.path with
  | none => exact answer_active ..
  | some p =>
    dsimp only
    -- Without an auth mode the plugin runs for the lab principal.
    generalize (if authEnforced s then s else { s with principal := labPrincipal }) = s₁
    have hrbac := requireRbac_active s₁ w outCap .resOpenai
    cases hr : requireRbac s₁ w outCap .resOpenai with
    | some denied => exact hrbac denied hr
    | none =>
      dsimp only
      split_ifs
      · rfl
      · exact answer_active ..

/-- A file, or what comes next without it. -/
theorem serveStatic_active (s : EdgeHttp1Serve η) (w : ServeWorld P υ) (file : Option Bytes)
    {next : Served η P υ} (hnext : next.world.active = w.active) :
    (serveStatic s w file next).world.active = w.active := by
  unfold serveStatic
  cases file with
  | none => exact hnext
  | some out => exact noteResponse_active w 200

/-- The pages: the file, the index, or the answer that there is none. -/
theorem dispatchSpa_active (env : ServeEnv η P υ) (s : EdgeHttp1Serve η) (w : ServeWorld P υ)
    (outCap : ℕ) : (dispatchSpa env s w outCap).world.active = w.active := by
  have hmissing : (answerNotFound s w outCap).world.active = w.active := answer_active ..
  unfold dispatchSpa
  by_cases hroot : s.roots.spaRoot.getD [] ≠ []
  · simp only [if_pos hroot]
    generalize (if s.path = [] then [slash] else s.path) = url
    refine serveStatic_active s w _ ?_
    split_ifs
    · exact hmissing
    · exact serveStatic_active s w _ hmissing
  · rw [if_neg hroot]
    split_ifs
    · exact answer_active ..
    · exact hmissing

/-- Everything else that is read: the health page, the packages and the pages. -/
theorem dispatchGet_active (env : ServeEnv η P υ) (s : EdgeHttp1Serve η) (w : ServeWorld P υ)
    (outCap : ℕ) : (dispatchGet env s w outCap).world.active = w.active := by
  unfold dispatchGet
  split_ifs
  · exact answer_active ..
  · unfold dispatchHealth
    cases edgeMetricsFormatHealthJson (w.metrics.getD (edgeMetricsInit env.clock)) env.clock 512 with
    | none => exact answer_active ..
    | some json => exact answer_active ..
  · cases pathIsPackages s.path with
    | some suffix =>
      have hrbac := requireRbac_active s w outCap .resPackages
      dsimp only [dispatchPackages]
      cases h : requireRbac s w outCap .resPackages with
      | some denied => exact hrbac denied h
      | none => exact serveStatic_active s w _ (answer_active ..)
    | none => exact dispatchSpa_active ..

/-- **The routes in their order**: the first that is for the request answers it. -/
theorem dispatch_active (env : ServeEnv η P υ) (s : EdgeHttp1Serve η) (w : ServeWorld P υ)
    (outCap : ℕ) : (dispatch env s w outCap).world.active = w.active := by
  have hlogin := dispatchLabLogin_active env s w outCap
  have hme := dispatchAuthMe_active s w outCap
  have hstate := dispatchState_active env s w outCap
  unfold dispatch
  cases hl : dispatchLabLogin env s w outCap with
  | some r => exact hlogin r hl
  | none =>
    cases hm : dispatchAuthMe s w outCap with
    | some r => exact hme r hm
    | none =>
      cases v1Host s w with
      | some h => exact dispatchV1_active ..
      | none =>
        dsimp only [dispatchApi]
        split_ifs
        · exact dispatchStream_active ..
        · cases hs : dispatchState env s w outCap with
          | some r => exact hstate r hs
          | none => exact dispatchGet_active ..

/-! ## A feed -/

theorem finishServed_active (r : Served η P υ) :
    (finishServed r).world.active = r.world.active := by
  unfold finishServed
  split_ifs <;> rfl

/-- **Serving a request does not touch the counter of live connections.** -/
theorem edgeHttp1ServeFeed_active (env : ServeEnv η P υ) (s : EdgeHttp1Serve η)
    (w : ServeWorld P υ) (data : Bytes) (outCap : ℕ) :
    (edgeHttp1ServeFeed env s w data outCap).world.active = w.active := by
  have hcount : (countInput w data).active = w.active := active_count fun _ => rfl
  unfold edgeHttp1ServeFeed
  split_ifs
  · rfl
  · rfl
  · simp only
    rw [finishServed_active, answer_active, hcount]
  · simp only
    generalize feedParser env s (countInput w data).hub data = fed
    rw [← hcount]
    split_ifs
    · rw [finishServed_active]
      exact answer_active ..
    · unfold feedParsed
      split_ifs
      · rfl
      · simp only
        split_ifs
        · rfl
        · rw [finishServed_active]
          exact dispatch_active ..
      · rw [finishServed_active]
        exact dispatch_active ..

end Edgehost
