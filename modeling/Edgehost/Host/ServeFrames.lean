import Edgehost.Host.StreamLaws
import Edgehost.Host.Mediation

/-!
# What a request leaves alone

A connection is given its auth context when it is made, and no request exchanges it, whatever its route.
The plugin host is the process's, and only a request for a plugin runs it.

* `KeepsHost`    — an answer that leaves both alone, and `KeepsAll` the store as well.
* `feed_auth`    — a feed leaves the auth context alone.
* `feed_plugins` — it leaves the plugin host alone, or as a run of one plugin leaves it.
-/

namespace Edgehost

variable {η P υ : Type*} {env : ServeEnv η P υ} {s : EdgeHttp1Serve η} {w : ServeWorld P υ}
  {outCap : ℕ} {r : Served η P υ}

/-- The answer leaves the auth context of the connection and the plugin host alone. -/
structure KeepsHost (s : EdgeHttp1Serve η) (w : ServeWorld P υ) (r : Served η P υ) : Prop where
  auth : r.serve.auth = s.auth
  plugins : r.world.plugins = w.plugins

/-- It leaves the store alone, too. -/
structure KeepsAll (s : EdgeHttp1Serve η) (w : ServeWorld P υ) (r : Served η P υ) : Prop
    extends KeepsHost s w r where
  store : r.world.store = w.store

/-- An answer only counts itself. -/
theorem keepsAll_answerEx {s₁ : EdgeHttp1Serve η} (hs : s₁.auth = s.auth) (w : ServeWorld P υ)
    (outCap : ℕ) (status : ℤ) (reason ctype extra body : Bytes) :
    KeepsAll s w (answerEx s₁ w outCap status reason ctype extra body) := by
  unfold answerEx
  cases buildResponseEx outCap status reason ctype extra body <;> exact ⟨⟨hs, rfl⟩, rfl⟩

theorem keepsAll_answer {s₁ : EdgeHttp1Serve η} (hs : s₁.auth = s.auth) (w : ServeWorld P υ)
    (outCap : ℕ) (status : ℤ) (reason ctype body : Bytes) :
    KeepsAll s w (answer s₁ w outCap status reason ctype body) :=
  keepsAll_answerEx hs w outCap status reason ctype [] body

/-- An answer in a world whose plugin host is the same. -/
theorem keepsHost_answer {s₁ : EdgeHttp1Serve η} {w₁ : ServeWorld P υ} (hs : s₁.auth = s.auth)
    (hw : w₁.plugins = w.plugins) (outCap : ℕ) (status : ℤ) (reason ctype body : Bytes) :
    KeepsHost s w (answer s₁ w₁ outCap status reason ctype body) :=
  have hall : KeepsAll s w₁ _ := keepsAll_answer hs w₁ outCap status reason ctype body
  ⟨hall.auth, hall.plugins.trans hw⟩

/-- A refusal is an answer. -/
theorem keepsAll_denied {s₁ : EdgeHttp1Serve η} (hs : s₁.auth = s.auth) {res : EdgeAuthResource}
    (h : requireRbac s₁ w outCap res = some r) : KeepsAll s w r := by
  unfold requireRbac at h
  split_ifs at h
  · exact Option.some.inj h ▸ keepsAll_answer hs ..
  · exact Option.some.inj h ▸ keepsAll_answer hs ..

/-- Looking for the body does not touch the auth context. -/
theorem waitFullBody_auth (s : EdgeHttp1Serve η) : (waitFullBody s).1.auth = s.auth := by
  obtain ⟨off, hwait⟩ := waitFullBody_eq s
  rw [hwait]

theorem locateBody_auth (s : EdgeHttp1Serve η) : (locateBody s).auth = s.auth := by
  obtain ⟨off, hlocate⟩ := locateBody_eq s
  rw [hlocate]

/-! ## The routes -/

/-- A login makes a session for the principal; the context that issues it stays. -/
theorem keepsAll_labLogin (h : dispatchLabLogin env s w outCap = some r) : KeepsAll s w r := by
  have hbody : (getBody (waitFullBody s).1).1.auth = s.auth :=
    (locateBody_auth _).trans (waitFullBody_auth s)
  unfold dispatchLabLogin at h
  split_ifs at h
  · exact Option.some.inj h ▸ keepsAll_answer rfl ..
  split at h
  · exact Option.some.inj h ▸ keepsAll_answer rfl ..
  dsimp only at h
  split_ifs at h
  split at h
  · exact Option.some.inj h ▸ keepsAll_answer hbody ..
  split_ifs at h
  · exact Option.some.inj h ▸ keepsAll_answer hbody ..
  split at h
  · exact Option.some.inj h ▸ keepsAll_answer hbody ..
  · split_ifs at h
    · obtain rfl := Option.some.inj h
      exact ⟨⟨hbody, rfl⟩, rfl⟩
    · -- The principal of the connection is the one issued; its auth context is not touched.
      rename_i issued _ _
      let s₁ : EdgeHttp1Serve η := { (getBody (waitFullBody s).1).1 with principal := issued }
      exact Option.some.inj h ▸ keepsAll_answerEx (show s₁.auth = s.auth from hbody) ..

/-- `GET /auth/me` only reads. -/
theorem keepsAll_authMe (h : dispatchAuthMe s w outCap = some r) : KeepsAll s w r := by
  unfold dispatchAuthMe at h
  split_ifs at h
  · exact Option.some.inj h ▸ keepsAll_answer rfl ..
  · exact Option.some.inj h ▸ keepsAll_answer rfl ..
  all_goals
    dsimp only at h
    split_ifs at h
    · obtain rfl := Option.some.inj h
      exact ⟨⟨rfl, rfl⟩, rfl⟩
    · exact Option.some.inj h ▸ keepsAll_answer rfl ..

/-- The plugin host that a request leaves: the one before, or what a run of a plugin makes of it. -/
inductive HostAfter (env : ServeEnv η P υ) (w : ServeWorld P υ) : Option (EdgePluginHost P) → Prop
  | same : HostAfter env w w.plugins
  | ran {h : EdgePluginHost P} (hplugins : w.plugins = some h) (s : EdgeHttp1Serve η)
      (w₁ : ServeWorld P υ) (p : P) : HostAfter env w (some (runPlugin env s w₁ h p).host)

/-- The plugin host is the same. -/
theorem KeepsHost.after (h : KeepsHost s w r) :
    r.serve.auth = s.auth ∧ HostAfter env w r.world.plugins := by
  refine ⟨h.auth, ?_⟩
  rw [h.plugins]
  exact .same

/-- The one route that runs a plugin. -/
theorem dispatchV1_after {h : EdgePluginHost P} (hplugins : w.plugins = some h) :
    (dispatchV1 env s w outCap h).serve.auth = s.auth ∧
      HostAfter env w (dispatchV1 env s w outCap h).world.plugins := by
  unfold dispatchV1
  cases edgePluginHostMatch h s.path with
  | none => exact (keepsHost_answer rfl rfl ..).after
  | some p =>
    dsimp only
    have hs : (if authEnforced s then s else { s with principal := labPrincipal }).auth = s.auth := by
      split_ifs <;> rfl
    generalize (if authEnforced s then s else { s with principal := labPrincipal }) = s₁ at hs
    cases hrbac : requireRbac s₁ w outCap .resOpenai with
    | some denied => exact (keepsAll_denied hs hrbac).toKeepsHost.after
    | none =>
      dsimp only
      split_ifs
      · exact KeepsHost.after ⟨hs, rfl⟩
      · -- The answer only counts what the plugin has left.
        let ran := runPlugin env (locateBody s₁) w h p
        have hran : KeepsHost s (afterHost w ran)
            (answerPlugin (locateBody s₁) (afterHost w ran) outCap ran.res) :=
          keepsHost_answer ((locateBody_auth s₁).trans hs) rfl ..
        refine ⟨hran.auth, ?_⟩
        rw [hran.plugins]
        exact .ran hplugins (locateBody s₁) w p

/-- The upgrade to the stream. -/
theorem keepsAll_stream : KeepsAll s w (dispatchStream env s w outCap) := by
  unfold dispatchStream
  cases hrbac : requireRbac s w outCap .resWsStream with
  | some denied => exact keepsAll_denied rfl hrbac
  | none =>
    dsimp only
    split_ifs
    · exact keepsAll_answer rfl ..
    · exact keepsAll_answer rfl ..
    cases edgeWsBuild101 s.wsKey outCap with
    | none => exact keepsAll_answer rfl ..
    | some out => exact ⟨⟨rfl, rfl⟩, rfl⟩

/-- A put or a delete changes the store, and no more. -/
theorem keepsHost_change (p : StatePath) (op : Bytes) (value : Option Bytes)
    (res : StateStore × EdgeStateErr) : KeepsHost s w (answerChange env s w outCap p op value res) := by
  unfold answerChange answerErr
  dsimp only
  split_ifs <;> exact keepsHost_answer rfl (by rfl) ..

/-- The state API, by the outcome of the request. -/
theorem keepsHost_state (h : dispatchState env s w outCap = some r) : KeepsHost s w r := by
  cases hpath : pathIsState s.path with
  | none =>
    rw [dispatchState, hpath] at h
    cases h
  | some p =>
    have houtcome := dispatchState_outcome env w outCap hpath
    rw [h] at houtcome
    generalize hr : some r = r' at houtcome
    cases houtcome with
    | denied hrbac => exact (keepsAll_denied rfl (hr ▸ hrbac)).toKeepsHost
    | unavailable => exact Option.some.inj hr ▸ keepsHost_answer rfl rfl ..
    | get =>
      obtain rfl := Option.some.inj hr
      unfold stateGetRoute answerErr
      by_cases hlist : p.isList
      · rw [if_pos hlist]
        split <;> exact keepsHost_answer rfl rfl ..
      · rw [if_neg hlist]
        split <;> exact keepsHost_answer rfl rfl ..
    | badKey => exact Option.some.inj hr ▸ keepsHost_answer rfl rfl ..
    | put =>
      unfold statePutRoute at hr
      cases hoff : s.bodyOff with
      | none =>
        rw [hoff] at hr
        cases hr
      | some off =>
        rw [hoff] at hr
        dsimp only at hr
        split_ifs at hr
        exact Option.some.inj hr ▸ keepsHost_change ..
    | delete => exact Option.some.inj hr ▸ keepsHost_change ..
    | method => exact Option.some.inj hr ▸ keepsHost_answer rfl rfl ..

/-- A file, or what comes next without it. -/
theorem keepsAll_static {next : Served η P υ} (file : Option Bytes) (hnext : KeepsAll s w next) :
    KeepsAll s w (serveStatic s w file next) := by
  unfold serveStatic
  cases file with
  | none => exact hnext
  | some out => exact ⟨⟨rfl, rfl⟩, rfl⟩

/-- Everything else that is read. -/
theorem keepsAll_get : KeepsAll s w (dispatchGet env s w outCap) := by
  unfold dispatchGet
  split_ifs
  · exact keepsAll_answer rfl ..
  · unfold dispatchHealth
    split <;> exact keepsAll_answer rfl ..
  split
  · unfold dispatchPackages
    split
    · rename_i hdenied
      exact keepsAll_denied rfl hdenied
    · exact keepsAll_static _ (keepsAll_answer rfl ..)
  · unfold dispatchSpa
    by_cases hspa : s.roots.spaRoot.getD [] ≠ []
    · rw [if_pos hspa]
      dsimp only
      generalize (if s.path = [] then [slash] else s.path) = url
      refine keepsAll_static _ ?_
      split_ifs
      · exact keepsAll_answer rfl ..
      · exact keepsAll_static _ (keepsAll_answer rfl ..)
    · rw [if_neg hspa]
      split_ifs
      · exact keepsAll_answer rfl ..
      · exact keepsAll_answer rfl ..

/-- All routes but the login, the session and the plugins. -/
theorem keepsHost_api : KeepsHost s w (dispatchApi env s w outCap) := by
  unfold dispatchApi
  split_ifs
  · exact keepsAll_stream.toKeepsHost
  · cases hstate : dispatchState env s w outCap with
    | some r => exact keepsHost_state hstate
    | none => exact keepsAll_get.toKeepsHost

/-- The routes in their order: only that of the plugins does more than `KeepsHost`. -/
theorem dispatch_after (env : ServeEnv η P υ) (s : EdgeHttp1Serve η) (w : ServeWorld P υ) (outCap : ℕ) :
    (dispatch env s w outCap).serve.auth = s.auth ∧
    HostAfter env w (dispatch env s w outCap).world.plugins := by
  unfold dispatch
  cases hlogin : dispatchLabLogin env s w outCap with
  | some r => exact (keepsAll_labLogin hlogin).toKeepsHost.after
  | none =>
    cases hme : dispatchAuthMe s w outCap with
    | some r => exact (keepsAll_authMe hme).toKeepsHost.after
    | none =>
      dsimp only
      cases hv1 : v1Host s w with
      | some h =>
        unfold v1Host at hv1
        exact dispatchV1_after (Option.ite_none_right_eq_some.mp hv1).2
      | none => exact keepsHost_api.after

/-! ## The feed -/

/-- The end of a request marks it as done. -/
theorem finishServed_auth (r : Served η P υ) : (finishServed r).serve.auth = r.serve.auth := by
  unfold finishServed
  split_ifs <;> rfl

/-- A feed waits, answers by itself or dispatches; the parser is the only one that acts before. -/
theorem feed_after (env : ServeEnv η P υ) (s : EdgeHttp1Serve η) (w : ServeWorld P υ) (data : Bytes)
    (outCap : ℕ) : (edgeHttp1ServeFeed env s w data outCap).serve.auth = s.auth ∧
      HostAfter env w (edgeHttp1ServeFeed env s w data outCap).world.plugins := by
  have hparser : (feedParser env s (countInput w data).hub data).1.auth = s.auth :=
    (feedParser_keeps env s (countInput w data).hub data).1
  have hkeep : ∀ {r : Served η P υ}, KeepsHost s w r →
      (finishServed r).serve.auth = s.auth ∧ HostAfter env w (finishServed r).world.plugins := by
    intro r hr
    rw [finishServed_auth, finishServed_world, hr.plugins]
    exact ⟨hr.auth, .same⟩
  unfold edgeHttp1ServeFeed
  dsimp only
  split_ifs
  · exact ⟨rfl, .same⟩
  · exact ⟨rfl, .same⟩
  · exact hkeep (keepsHost_answer rfl (by rfl) ..)
  · exact hkeep (keepsHost_answer hparser (by rfl) ..)
  · generalize (feedParser env s (countInput w data).hub data) = parsed at hparser
    cases hready : readyRequest parsed.1 with
    | none =>
      obtain ⟨off, hwait⟩ := feedParsed_of_not_ready (P := P) (υ := υ) hready
      rw [hwait]
      exact ⟨hparser, .same⟩
    | some s' =>
      rw [feedParsed_of_ready env _ outCap hready, finishServed_auth, finishServed_world]
      obtain ⟨off, rfl⟩ := readyRequest_eq hready
      obtain ⟨hauth, hafter⟩ := dispatch_after env { parsed.1 with bodyOff := off }
        { countInput w data with hub := parsed.2.1 } outCap
      refine ⟨hauth.trans hparser, ?_⟩
      -- What `dispatch` found is what the feed found: the parser has only minted a request id.
      generalize (dispatch env _ _ outCap).world.plugins = after at hafter
      cases hafter with
      | same => exact .same
      | ran hplugins s₁ w₁ p => exact .ran (show w.plugins = _ from hplugins) s₁ w₁ p

/-- **A feed leaves the context of its connection as it is.** -/
theorem feed_auth (env : ServeEnv η P υ) (s : EdgeHttp1Serve η) (w : ServeWorld P υ) (data : Bytes)
    (outCap : ℕ) : (edgeHttp1ServeFeed env s w data outCap).serve.auth = s.auth :=
  (feed_after env s w data outCap).1

/-- **A feed leaves the plugin host as it is, or as a run of one plugin leaves it.** -/
theorem feed_plugins (env : ServeEnv η P υ) (s : EdgeHttp1Serve η) (w : ServeWorld P υ) (data : Bytes)
    (outCap : ℕ) : HostAfter env w (edgeHttp1ServeFeed env s w data outCap).world.plugins :=
  (feed_after env s w data outCap).2

end Edgehost
