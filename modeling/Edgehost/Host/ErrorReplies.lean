import Edgehost.Host.OpenaiErrors

/-!
# The errors of every route

Each route has its own errors; a request comes to the miscounted ones by its path, its method and what the
process has for it.

* `Miscounts`: the requests that come to a miscounted text.
* `errorsWellFormed_iff`: every other request is answered with a well-formed error, if with one.
-/

namespace Edgehost

variable {η P υ : Type*}

/-! ## Routes without miscounted texts -/

section Routes

variable {env : ServeEnv η P υ} {s : EdgeHttp1Serve η} {w : ServeWorld P υ} {outCap : ℕ}

/-- A denied request is answered with an error that counts itself. -/
theorem wellFormed_requireRbac (hcap : 1024 ≤ outCap) {res : EdgeAuthResource} {r : Served η P υ}
    (h : requireRbac s w outCap res = some r) : ErrorsWellFormed r := by
  unfold requireRbac at h
  split_ifs at h
  · obtain rfl := Option.some.inj h
    exact errorsWellFormed_errorBody s w hcap (by decide) (by decide)
  · obtain rfl := Option.some.inj h
    exact errorsWellFormed_errorBody s w hcap (by decide) (by decide)

/-- A plain text counts itself. -/
theorem wellFormed_text (hcap : 1024 ≤ outCap) {status : ℤ} {reason body : Bytes} (hreason : 13 ∉ reason) :
    ErrorsWellFormed (answer s w outCap status reason (bytes "text/plain") body) :=
  errorsWellFormed_other s w (by omega) hreason (by decide) (by decide)

/-- What is built has its status in front. -/
theorem status_prefix_of_build {status : ℤ} {reason ctype extra body out : Bytes}
    (h : buildResponseEx outCap status reason ctype extra body = some out) :
    bytes "HTTP/1.1 " ++ decimalInt status ++ [32] <+: out := by
  unfold buildResponseEx at h
  dsimp only at h
  split_ifs at h
  obtain rfl := Option.some.inj h
  simp only [responseHead, List.append_assoc]
  exact (List.prefix_append_right_inj _).mpr
    ((List.prefix_append_right_inj _).mpr (List.prefix_append _ _))

/-- A success is no error. -/
theorem wellFormed_success {status : ℤ} (hstatus : status < 400) {reason ctype extra body : Bytes} :
    ErrorsWellFormed (answerEx s w outCap status reason ctype extra body) := by
  unfold answerEx
  cases hbuilt : buildResponseEx outCap status reason ctype extra body with
  | none => exact errorsWellFormed_of_ret (show ¬(-1 : ℤ) = 1 by decide)
  | some out => exact errorsWellFormed_of_status hstatus (status_prefix_of_build hbuilt)

/-- A success is no error. -/
theorem wellFormed_ok {reason ctype extra body : Bytes} :
    ErrorsWellFormed (answerEx s w outCap 200 reason ctype extra body) :=
  wellFormed_success (by decide)

/-- A file is sent with status 200. -/
theorem status_prefix_of_tryStatic {root : Option Bytes} {url out : Bytes} {maxFile cap : ℕ}
    (h : tryStatic env root url maxFile cap = some out) :
    bytes "HTTP/1.1 " ++ decimalInt 200 ++ [32] <+: out := by
  unfold tryStatic at h
  cases root with
  | none => cases h
  | some root =>
    dsimp only at h
    obtain ⟨-, h⟩ := Option.ite_none_left_eq_some.mp h
    split at h
    · cases h
    · obtain ⟨-, h⟩ := Option.ite_none_left_eq_some.mp h
      exact status_prefix_of_build h

theorem wellFormed_serveStatic {root : Option Bytes} {url : Bytes} {maxFile cap : ℕ}
    {next : Served η P υ} (hnext : ErrorsWellFormed next) :
    ErrorsWellFormed (serveStatic s w (tryStatic env root url maxFile cap) next) := by
  unfold serveStatic
  cases hfile : tryStatic env root url maxFile cap with
  | none => exact hnext
  | some out => exact errorsWellFormed_of_status (by decide) (status_prefix_of_tryStatic hfile)

/-- Every error of the store has a body that counts itself. -/
theorem wellFormed_answerErr (hcap : 1024 ≤ outCap) (e : EdgeStateErr) :
    ErrorsWellFormed (answerErr s w outCap e) := by
  unfold answerErr
  cases e with
  | ok => exact wellFormed_ok
  | _ => exact errorsWellFormed_errorBody s w hcap (by decide) (by decide)

theorem wellFormed_answerMethod (hcap : 1024 ≤ outCap) : ErrorsWellFormed (answerMethod s w outCap) :=
  errorsWellFormed_errorBody s w hcap (by decide) (by decide)

/-- `/auth/me` answers with counted texts. -/
theorem wellFormed_dispatchAuthMe (hcap : 1024 ≤ outCap) {r : Served η P υ}
    (h : dispatchAuthMe s w outCap = some r) : ErrorsWellFormed r := by
  unfold dispatchAuthMe at h
  dsimp only at h
  split_ifs at h
  · obtain rfl := Option.some.inj h
    exact wellFormed_answerMethod hcap
  · obtain rfl := Option.some.inj h
    exact errorsWellFormed_errorBody s w hcap (by decide) (by decide)
  all_goals obtain rfl := Option.some.inj h
  all_goals first
    | exact errorsWellFormed_of_ret (show ¬(-1 : ℤ) = 1 by decide)
    | exact wellFormed_ok

theorem wellFormed_notFound (hcap : 1024 ≤ outCap) : ErrorsWellFormed (answerNotFound s w outCap) :=
  wellFormed_text hcap (by decide)

/-- The files of the application; what is missing is answered with a plain text. -/
theorem wellFormed_dispatchSpa (hcap : 1024 ≤ outCap) :
    ErrorsWellFormed (dispatchSpa env s w outCap) := by
  unfold dispatchSpa
  dsimp only
  by_cases hroot : s.roots.spaRoot.getD [] ≠ []
  · rw [if_pos hroot]
    generalize (if s.path = [] then [slash] else s.path) = url
    refine wellFormed_serveStatic ?_
    split_ifs
    · exact wellFormed_notFound hcap
    · exact wellFormed_serveStatic (wellFormed_notFound hcap)
  · rw [if_neg hroot]
    split_ifs
    · exact wellFormed_ok
    · exact wellFormed_notFound hcap

/-- The other routes for GET. -/
theorem wellFormed_dispatchGet (hcap : 1024 ≤ outCap) :
    ErrorsWellFormed (dispatchGet env s w outCap) := by
  unfold dispatchGet
  by_cases hmethod : s.method ≠ [] ∧ s.method ≠ bytes "GET"
  · rw [if_pos hmethod]
    exact wellFormed_text hcap (by decide)
  rw [if_neg hmethod]
  by_cases hhealth : pathIsHealth s.path
  · rw [if_pos hhealth, dispatchHealth]
    split
    · exact wellFormed_text hcap (by decide)
    · exact wellFormed_ok
  rw [if_neg hhealth]
  cases pathIsPackages s.path with
  | none => exact wellFormed_dispatchSpa hcap
  | some suffix =>
    dsimp only
    unfold dispatchPackages
    cases hrbac : requireRbac s w outCap .resPackages with
    | some denied => exact wellFormed_requireRbac hcap hrbac
    | none => exact wellFormed_serveStatic (wellFormed_notFound hcap)

/-! ## Login -/

/-- The first of the two that the login miscounts is that of a process without lab passwords
(`AUTH_DISABLED`), the other that of a body without one (`BAD_BODY`). -/
def LoginMiscounts (s : EdgeHttp1Serve η) : Prop :=
  s.method = bytes "POST" ∧
    ((s.auth.filter fun auth => auth.mode = .modeLabPassword) = none ∨
      (waitFullBody s).2 ∧
        edgeAuthParseLoginPassword (getBody (waitFullBody s).1).2 EDGE_AUTH_PASSWORD_MAX = none)

/-- A text that is counted wrong is cut off, or goes on behind its end, and is not JSON. -/
theorem not_wellFormed_counted (s : EdgeHttp1Serve η) (w : ServeWorld P υ) (hcap : 1024 ≤ outCap)
    {status : ℤ} {reason name : Bytes} {len : ℕ} (h : ShortError status reason name)
    (hlo : name.length + 11 ≤ len) (hhi : len ≤ name.length + 13) (hne : len ≠ name.length + 12) :
    ¬ErrorsWellFormed (answer s w outCap status reason jsonType (countedError name len)) := fun hwell =>
  hne ((errorsWellFormed_counted_iff s w hcap h hlo hhi).mp hwell)

/-- **The login miscounts exactly these two.** -/
theorem wellFormed_login_iff (hcap : 1024 ≤ outCap) (hpath : pathIsLabLogin s.path) {r : Served η P υ}
    (h : dispatchLabLogin env s w outCap = some r) : ErrorsWellFormed r ↔ ¬LoginMiscounts s := by
  unfold dispatchLabLogin at h
  rw [hpath] at h
  by_cases hmethod : s.method = bytes "POST"
  · rw [if_neg (by decide), if_neg (not_not.mpr hmethod)] at h
    cases hauth : s.auth.filter fun auth => auth.mode = .modeLabPassword with
    | none =>
      rw [hauth] at h
      obtain rfl := Option.some.inj h
      refine iff_of_false ?_ fun hno => hno ⟨hmethod, .inl hauth⟩
      exact not_wellFormed_counted s w hcap (by decide) (by decide) (by decide) (by decide)
    | some auth =>
      rw [hauth] at h
      dsimp only at h
      by_cases hfull : (waitFullBody s).2
      · rw [if_neg (by simp [hfull])] at h
        cases hparse : edgeAuthParseLoginPassword (getBody (waitFullBody s).1).2
            EDGE_AUTH_PASSWORD_MAX with
        | none =>
          rw [hparse] at h
          obtain rfl := Option.some.inj h
          refine iff_of_false ?_ fun hno => hno ⟨hmethod, .inr ⟨hfull, hparse⟩⟩
          exact not_wellFormed_counted _ w hcap (by decide) (by decide) (by decide) (by decide)
        | some password =>
          rw [hparse] at h
          dsimp only at h
          refine iff_of_true ?_ ?_
          · split_ifs at h with hbad
            · obtain rfl := Option.some.inj h
              exact errorsWellFormed_errorBody _ w hcap (by decide) (by decide)
            · split at h
              · obtain rfl := Option.some.inj h
                exact errorsWellFormed_errorBody _ w hcap (by decide) (by decide)
              · split_ifs at h
                · obtain rfl := Option.some.inj h
                  exact errorsWellFormed_of_ret (show ¬(-1 : ℤ) = 1 by decide)
                · obtain rfl := Option.some.inj h
                  exact wellFormed_ok
          · rintro ⟨-, hnone | ⟨-, hnone⟩⟩
            · rw [hauth] at hnone
              cases hnone
            · rw [hparse] at hnone
              cases hnone
      · -- A body that is not whole is waited for, and nothing is answered.
        rw [if_pos (by simp [hfull])] at h
        cases h
  · rw [if_neg (by decide), if_pos hmethod] at h
    obtain rfl := Option.some.inj h
    exact iff_of_true (wellFormed_answerMethod hcap) fun hmis => hmethod hmis.1

/-! ## The stream -/

/-- A GET that is no upgrade (`WS_UPGRADE_REQUIRED`), or whose key is not accepted (`WS_ACCEPT`). -/
def StreamMiscounts (env : ServeEnv η P υ) (s : EdgeHttp1Serve η) (outCap : ℕ) : Prop :=
  Authorised s .resWsStream ∧ s.method = bytes "GET" ∧
    (env.parser.isWebsocketUpgrade s.h1 = false ∨ s.wsKey = [] ∨ edgeWsBuild101 s.wsKey outCap = none)

/-- An upgrade is answered with status 101. -/
theorem status_prefix_of_build101 {key out : Bytes} (h : edgeWsBuild101 key outCap = some out) :
    bytes "HTTP/1.1 " ++ decimalInt 101 ++ [32] <+: out := by
  unfold edgeWsBuild101 at h
  split at h
  · cases h
  · dsimp only at h
    split_ifs at h
    obtain rfl := Option.some.inj h
    rw [List.append_assoc, List.append_assoc]
    exact (show _ <+: _ by decide : bytes "HTTP/1.1 " ++ decimalInt 101 ++ [32] <+: bytes
      "HTTP/1.1 101 Switching Protocols\r\nUpgrade: websocket\r\nConnection: Upgrade\r\n").trans
        (List.prefix_append _ _)

/-- **The stream miscounts exactly** what it says of an upgrade that it cannot grant. -/
theorem wellFormed_stream_iff (hcap : 1024 ≤ outCap) :
    ErrorsWellFormed (dispatchStream env s w outCap) ↔ ¬StreamMiscounts env s outCap := by
  unfold dispatchStream
  cases hrbac : requireRbac s w outCap .resWsStream with
  | some denied =>
    refine iff_of_true (wellFormed_requireRbac hcap hrbac) fun hmis => ?_
    rw [requireRbac_of_authorised hmis.1 w outCap] at hrbac
    cases hrbac
  | none =>
    have hauth := (requireRbac_eq_none_iff s w outCap (by decide)).mp hrbac
    dsimp only
    by_cases hmethod : s.method = bytes "GET"
    · rw [if_neg (not_not.mpr hmethod)]
      -- The refusals of an upgrade are the texts that are miscounted.
      by_cases hupgrade : (!env.parser.isWebsocketUpgrade s.h1 || decide (s.wsKey = [])) = true
      · rw [if_pos hupgrade]
        refine iff_of_false
          (not_wellFormed_counted s w hcap (by decide) (by decide) (by decide) (by decide))
          fun hno => hno ⟨hauth, hmethod, ?_⟩
        rcases Bool.or_eq_true_iff.mp hupgrade with hno' | hkey
        · exact .inl (by simpa using hno')
        · exact .inr (.inl (of_decide_eq_true hkey))
      · rw [if_neg hupgrade]
        cases hbuilt : edgeWsBuild101 s.wsKey outCap with
        | none =>
          exact iff_of_false
            (not_wellFormed_counted s w hcap (by decide) (by decide) (by decide) (by decide))
            fun hno => hno ⟨hauth, hmethod, .inr (.inr hbuilt)⟩
        | some out =>
          refine iff_of_true (errorsWellFormed_of_status (show (101 : ℤ) < 400 by decide) ?_) ?_
          · exact status_prefix_of_build101 hbuilt
          · rintro ⟨-, -, hno | hkey | hnone⟩
            · exact hupgrade (by simp [hno])
            · exact hupgrade (by simp [hkey])
            · rw [hbuilt] at hnone
              cases hnone
    · rw [if_pos hmethod]
      exact iff_of_true (wellFormed_answerMethod hcap) fun hmis => hmethod hmis.2.1

/-! ## The state -/

/-- The gate lets a request through to a resource; nothing is asked where it needs none. -/
def Admitted (s : EdgeHttp1Serve η) (res : EdgeAuthResource) : Prop :=
  res = .resNone ∨ Authorised s res

theorem requireRbac_eq_none_iff_admitted {res : EdgeAuthResource} :
    requireRbac s w outCap res = none ↔ Admitted s res := by
  by_cases hres : res = .resNone
  · refine iff_of_true ?_ (.inl hres)
    unfold requireRbac
    rw [hres, decide_eq_true rfl, Bool.or_true]
    rfl
  · rw [requireRbac_eq_none_iff s w outCap hres]
    exact ⟨.inr, fun h => h.resolve_left hres⟩

/-- A process without a store (`STATE_UNAVAILABLE`), or a change without a key (`BAD_KEY`). -/
def StateMiscounts (s : EdgeHttp1Serve η) (w : ServeWorld P υ) (p : StatePath) : Prop :=
  Admitted s (edgeAuthClassify s.method s.path p.isList) ∧
    (w.store = none ∨ (s.method = bytes "PUT" ∨ s.method = bytes "DELETE") ∧ (p.isList ∨ p.key = []))

/-- The answers to a change count themselves. -/
theorem wellFormed_answerChange (hcap : 1024 ≤ outCap) (p : StatePath) (op : Bytes)
    (value : Option Bytes) (r : StateStore × EdgeStateErr) :
    ErrorsWellFormed (answerChange env s w outCap p op value r) := by
  unfold answerChange
  dsimp only
  split_ifs
  · exact wellFormed_success (by decide)
  · exact wellFormed_answerErr hcap r.2

/-- So do the answers to a GET of the state. -/
theorem wellFormed_stateGet (hcap : 1024 ≤ outCap) (st : StateStore) (p : StatePath) :
    ErrorsWellFormed (stateGetRoute s w outCap st p) := by
  unfold stateGetRoute
  by_cases hlist : p.isList
  · rw [if_pos hlist]
    split
    · exact wellFormed_answerErr hcap _
    · exact wellFormed_ok
  · rw [if_neg hlist]
    split
    · exact wellFormed_answerErr hcap _
    · exact wellFormed_ok

/-- So do those to a PUT. -/
theorem wellFormed_statePut (hcap : 1024 ≤ outCap) (st : StateStore) (p : StatePath) {r : Served η P υ}
    (h : statePutRoute env s w outCap st p = some r) : ErrorsWellFormed r := by
  unfold statePutRoute at h
  split at h
  · cases h
  · split_ifs at h
    obtain rfl := Option.some.inj h
    exact wellFormed_answerChange hcap p _ _ _

/-- **The state routes miscount exactly these two.** -/
theorem wellFormed_state_iff (hcap : 1024 ≤ outCap) {p : StatePath}
    (hpath : pathIsState s.path = some p) (hstream : edgeWsPathIsStream s.path = false) :
    ErrorsWellFormed (dispatchApi env s w outCap) ↔ ¬StateMiscounts s w p := by
  rw [dispatchApi, hstream, if_neg Bool.false_ne_true]
  have houtcome := dispatchState_outcome env w outCap hpath
  generalize dispatchState env s w outCap = out at houtcome ⊢
  -- Only two of the outcomes are answered with a text that is counted by hand.
  cases houtcome with
  | denied hrbac =>
    refine iff_of_true (wellFormed_requireRbac hcap hrbac) fun hmis => ?_
    rw [requireRbac_eq_none_iff_admitted.mpr hmis.1] at hrbac
    cases hrbac
  | unavailable hrbac hst =>
    have hauth := requireRbac_eq_none_iff_admitted.mp hrbac
    exact iff_of_false
      (not_wellFormed_counted s w hcap (by decide) (by decide) (by decide) (by decide))
      fun hno => hno ⟨hauth, .inl hst⟩
  | @get st _ hst hget =>
    refine iff_of_true (wellFormed_stateGet hcap st p) ?_
    rintro ⟨-, hnone | ⟨hput | hdelete, -⟩⟩
    · exact Option.some_ne_none st (hst.symm.trans hnone)
    · exact absurd (hget.symm.trans hput) (by decide)
    · exact absurd (hget.symm.trans hdelete) (by decide)
  | badKey hrbac _ hmethod hkey =>
    have hauth := requireRbac_eq_none_iff_admitted.mp hrbac
    exact iff_of_false
      (not_wellFormed_counted s w hcap (by decide) (by decide) (by decide) (by decide))
      fun hno => hno ⟨hauth, .inr ⟨hmethod, hkey⟩⟩
  | @put st _ hst _ hkey =>
    refine iff_of_true ?_ ?_
    · cases hroute : statePutRoute env s w outCap st p with
      | some r => exact wellFormed_statePut hcap st p hroute
      | none => exact wellFormed_dispatchGet hcap
    · rintro ⟨-, hnone | ⟨-, hno⟩⟩
      · exact Option.some_ne_none st (hst.symm.trans hnone)
      · exact hkey hno
  | @delete st _ hst _ hkey =>
    refine iff_of_true (wellFormed_answerChange hcap p _ _ _) ?_
    rintro ⟨-, hnone | ⟨-, hno⟩⟩
    · exact Option.some_ne_none st (hst.symm.trans hnone)
    · exact hkey hno
  | @method st _ hst _ hput hdelete =>
    refine iff_of_true (wellFormed_answerMethod hcap) ?_
    rintro ⟨-, hnone | ⟨hput' | hdelete', -⟩⟩
    · exact Option.some_ne_none st (hst.symm.trans hnone)
    · exact hput hput'
    · exact hdelete hdelete'

/-- What the routes behind the plugins miscount. -/
def ApiMiscounts (env : ServeEnv η P υ) (s : EdgeHttp1Serve η) (w : ServeWorld P υ) (outCap : ℕ) :
    Prop :=
  if edgeWsPathIsStream s.path then StreamMiscounts env s outCap
  else ∃ p, pathIsState s.path = some p ∧ StateMiscounts s w p

/-- A path is that of the stream, of the state, or of neither. -/
theorem wellFormed_api_iff (hcap : 1024 ≤ outCap) :
    ErrorsWellFormed (dispatchApi env s w outCap) ↔ ¬ApiMiscounts env s w outCap := by
  unfold ApiMiscounts
  by_cases hstream : edgeWsPathIsStream s.path
  · rw [dispatchApi, if_pos hstream, if_pos hstream]
    exact wellFormed_stream_iff hcap
  · rw [if_neg hstream]
    cases hpath : pathIsState s.path with
    | some p =>
      rw [wellFormed_state_iff hcap hpath (Bool.eq_false_iff.mpr hstream)]
      refine not_congr ⟨fun hmis => ⟨p, rfl, hmis⟩, ?_⟩
      rintro ⟨p', hsame, hmis⟩
      obtain rfl := Option.some.inj hsame
      exact hmis
    | none =>
      rw [dispatchApi, if_neg hstream, dispatchState, hpath]
      refine iff_of_true (wellFormed_dispatchGet hcap) ?_
      rintro ⟨p, hnone, -⟩
      cases hnone

/-- What begins with `/auth` has no other route. -/
theorem not_apiMiscounts_of_auth (hauth : bytes "/auth" <+: s.path) : ¬ApiMiscounts env s w outCap := by
  have hstream : isRoute (bytes "/api/v1/stream") s.path = false :=
    not_isRoute hauth (by decide) (by decide)
  rw [ApiMiscounts, if_neg (show ¬edgeWsPathIsStream s.path from Bool.eq_false_iff.mp hstream)]
  rintro ⟨p, hpath, -⟩
  unfold pathIsState at hpath
  obtain ⟨hfront, -⟩ := Option.ite_none_left_eq_some.mp hpath
  exact absurd (List.prefix_of_prefix_length_le hauth
    (List.isPrefixOf_iff_prefix.mp (by simpa using hfront)) (by decide)) (by decide)

/-- No path under `/auth` goes to a plugin. -/
theorem v1Host_of_auth (hauth : bytes "/auth" <+: s.path) : v1Host s w = none :=
  if_neg fun hv1 => absurd (List.prefix_of_prefix_length_le (prefix_of_pathIsV1 hv1) hauth (by decide))
    (by decide)

end Routes

/-! ## Every request -/

section Requests

variable (env : ServeEnv η P OpenaiData) (now : ℤ) (alloc : Bool) (s : EdgeHttp1Serve η)
  (w : ServeWorld P OpenaiData) (outCap : ℕ)

/-- A request under `/v1` without a plugin (`NOT_FOUND`), or one of the proxy's. -/
def V1Miscounts (h : EdgePluginHost P) : Prop :=
  edgePluginHostMatch h s.path = none ∨
    ∃ p, ForPlugin s w h p ∧ env.allocPluginBody ∧ ProxyMiscounts env now alloc (v1Serve s) w h p

/-- **The requests that come to a miscounted text**, in the order of `dispatch`. -/
def Miscounts : Prop :=
  if pathIsLabLogin s.path then LoginMiscounts s
  else
    match v1Host s w with
    | some h => V1Miscounts env now alloc s w h
    | none => ApiMiscounts env s w outCap

/-- The body of the answer is an upstream's. -/
def PassesThrough : Prop :=
  ∃ h p, ForPlugin s w h p ∧ env.allocPluginBody ∧ ProxyPasses env now alloc (v1Serve s) w h p

end Requests

section Feed

variable {env : ServeEnv η P OpenaiData} {now : ℤ} {alloc : Bool} {s : EdgeHttp1Serve η}
  {w : ServeWorld P OpenaiData} {outCap : ℕ}

/-- A request has one plugin. -/
theorem ForPlugin.unique {υ : Type*} {w : ServeWorld P υ} {h h' : EdgePluginHost P} {p p' : P}
    (hreq : ForPlugin s w h p) (hreq' : ForPlugin s w h' p') : h' = h ∧ p' = p := by
  obtain rfl := Option.some.inj (hreq'.plugins.symm.trans hreq.plugins)
  exact ⟨rfl, Option.some.inj (hreq'.plugin.symm.trans hreq.plugin)⟩

/-- **The routes of the plugins miscount exactly these**, unless an upstream's body is passed on. -/
theorem wellFormed_v1_iff (hcap : 1024 ≤ outCap) (henv : RunsProxy env now alloc)
    {h : EdgePluginHost P} (hhost : v1Host s w = some h) (hpass : ¬PassesThrough env now alloc s w) :
    ErrorsWellFormed (dispatchV1 env s w outCap h) ↔ ¬V1Miscounts env now alloc s w h := by
  have hpath : pathIsV1 s.path := by
    by_contra hno
    rw [v1Host, if_neg hno] at hhost
    cases hhost
  have hplugins : w.plugins = some h := by
    rw [v1Host, if_pos hpath] at hhost
    exact hhost
  cases hplugin : edgePluginHostMatch h s.path with
  | none =>
    rw [dispatchV1, hplugin]
    exact iff_of_false
      (not_wellFormed_counted s w hcap (by decide) (by decide) (by decide) (by decide))
      fun hno => hno (.inl hplugin)
  | some p =>
    by_cases hauth : Authorised s .resOpenai
    · have hreq : ForPlugin s w h p := ⟨hpath, hplugins, hplugin, hauth⟩
      have hone : V1Miscounts env now alloc s w h ↔
          env.allocPluginBody ∧ ProxyMiscounts env now alloc (v1Serve s) w h p := by
        constructor
        · rintro (hnone | ⟨p', hreq', hmis⟩)
          · rw [hplugin] at hnone
            cases hnone
          · obtain ⟨-, rfl⟩ := hreq.unique hreq'
            exact hmis
        · exact fun hmis => .inr ⟨p, hreq, hmis⟩
      rw [hone, ← dispatch_eq_dispatchV1 env hpath hplugins]
      by_cases halloc : env.allocPluginBody
      · rw [dispatch_v1 hreq halloc, v1Result, answerPlugin_proxy_iff hcap henv fun hpass' =>
          hpass ⟨h, p, hreq, halloc, hpass'⟩, and_iff_right halloc]
      · rw [dispatch_v1_nomem hreq halloc]
        exact iff_of_true (errorsWellFormed_of_ret (show ¬(-1 : ℤ) = 1 by decide))
          fun hmis => halloc hmis.1
    · refine iff_of_true ?_ ?_
      · rw [dispatchV1, hplugin]
        dsimp only
        -- Where nothing is enforced every request is authorised, so the gate sees the request's own.
        have hdenied : requireRbac (if authEnforced s then s else { s with principal := labPrincipal })
            w outCap .resOpenai ≠ none := by
          rw [Ne, requireRbac_eq_none_iff _ _ _ (by decide)]
          by_cases henf : authEnforced s
          · rw [if_pos henf]
            exact hauth
          · exact absurd (fun h => absurd h henf) hauth
        obtain ⟨denied, hsome⟩ := Option.ne_none_iff_exists'.mp hdenied
        rw [hsome]
        exact wellFormed_requireRbac hcap hsome
      · rintro (hnone | ⟨p', hreq, -⟩)
        · rw [hplugin] at hnone
          cases hnone
        · exact hauth hreq.authorised

/-- A login that is not yet whole. -/
theorem not_loginMiscounts_of_none {w : ServeWorld P OpenaiData} (hpath : pathIsLabLogin s.path)
    (h : dispatchLabLogin env s w outCap = none) : ¬LoginMiscounts s := by
  unfold dispatchLabLogin at h
  rw [hpath, if_neg (by decide)] at h
  rintro ⟨hmethod, hauth | ⟨hfull, hparse⟩⟩
  · rw [if_neg (not_not.mpr hmethod), hauth] at h
    cases h
  · rw [if_neg (not_not.mpr hmethod)] at h
    cases hauth : s.auth.filter fun auth => auth.mode = .modeLabPassword with
    | none =>
      rw [hauth] at h
      cases h
    | some auth =>
      rw [hauth] at h
      dsimp only at h
      rw [if_neg (by simp [hfull]), hparse] at h
      cases h

/-- **Every error of `dispatch` is well formed exactly where it comes to no miscounted text.** -/
theorem wellFormed_dispatch_iff (hcap : 1024 ≤ outCap) (henv : RunsProxy env now alloc)
    (hpass : ¬PassesThrough env now alloc s w) :
    ErrorsWellFormed (dispatch env s w outCap) ↔ ¬Miscounts env now alloc s w outCap := by
  unfold Miscounts
  by_cases hlogin : pathIsLabLogin s.path
  · rw [if_pos hlogin]
    cases hserved : dispatchLabLogin env s w outCap with
    | some r =>
      rw [dispatch, hserved]
      exact wellFormed_login_iff hcap hlogin hserved
    | none =>
      have hauth : bytes "/auth" <+: s.path :=
        (show bytes "/auth" <+: bytes "/auth/lab-login" by decide).trans (prefix_of_isRoute hlogin)
      have hme : dispatchAuthMe s w outCap = none := if_pos (by
        rw [pathIsAuthMe, not_isRoute ((show bytes "/auth/l" <+: bytes "/auth/lab-login" by
          decide).trans (prefix_of_isRoute hlogin)) (by decide) (by decide)]
        rfl)
      -- A login that waits for its body falls through, and no other route takes its path.
      refine iff_of_true ?_ (not_loginMiscounts_of_none hlogin hserved)
      rw [dispatch, hserved, hme, v1Host_of_auth hauth]
      exact (wellFormed_api_iff hcap).mpr (not_apiMiscounts_of_auth hauth)
  · have hserved : dispatchLabLogin env s w outCap = none := if_pos (by simpa using hlogin)
    rw [if_neg hlogin, dispatch, hserved]
    dsimp only
    cases hme : dispatchAuthMe s w outCap with
    | some r =>
      have hauth : bytes "/auth" <+: s.path := by
        by_contra hno
        have hnot : pathIsAuthMe s.path = false := Bool.eq_false_iff.mpr fun hpath =>
          hno ((show bytes "/auth" <+: bytes "/auth/me" by decide).trans (prefix_of_isRoute hpath))
        rw [dispatchAuthMe, hnot] at hme
        cases hme
      rw [v1Host_of_auth hauth]
      exact iff_of_true (wellFormed_dispatchAuthMe hcap hme) (not_apiMiscounts_of_auth hauth)
    | none =>
      cases hhost : v1Host s w with
      | some h => exact wellFormed_v1_iff hcap henv hhost hpass
      | none => exact wellFormed_api_iff hcap

/-- What does not come to `dispatch` is no error in JSON. -/
theorem wellFormed_feed_of_none {data : Bytes} (hcap : 1024 ≤ outCap)
    (h : feedRequest env s w data = none) :
    ErrorsWellFormed (edgeHttp1ServeFeed env s w data outCap) := by
  obtain ⟨s', w', -, ⟨ret, hret, heq⟩ | ⟨status, reason, body, hreason, heq⟩⟩ := feed_of_none h outCap
  · rw [heq]
    exact errorsWellFormed_of_ret hret
  · rw [heq, errorsWellFormed_finishServed_iff]
    exact wellFormed_text hcap hreason

/-- **Of a proxy's process, every error in JSON but an upstream's is well formed exactly where the request
comes to no miscounted text.** -/
theorem errorsWellFormed_iff (hcap : 1024 ≤ outCap) (henv : RunsProxy env now alloc) (data : Bytes)
    (hpass : ∀ s' w', feedRequest env s w data = some (s', w') → ¬PassesThrough env now alloc s' w') :
    ErrorsWellFormed (edgeHttp1ServeFeed env s w data outCap) ↔
      ∀ s' w', feedRequest env s w data = some (s', w') → ¬Miscounts env now alloc s' w' outCap := by
  cases hreq : feedRequest env s w data with
  | none =>
    refine iff_of_true (wellFormed_feed_of_none hcap hreq) fun s' w' h => ?_
    cases h
  | some x =>
    obtain ⟨s', w'⟩ := x
    rw [feed_of_feedRequest hreq, errorsWellFormed_finishServed_iff,
      wellFormed_dispatch_iff hcap henv (hpass s' w' hreq)]
    constructor
    · rintro h s'' w'' hsame
      obtain ⟨rfl, rfl⟩ := Prod.mk.inj (Option.some.inj hsame)
      exact h
    · exact fun h => h s' w' rfl

end Feed

/-! ## The login -/

/-- A parser that finds a request for the login in whatever comes. -/
def loginParser (method : Bytes) : Http1Parser Unit where
  feedInput _ _ :=
    ([(.requestLine method (bytes "/auth/lab-login"), ()), (.headersComplete, ())], ())
  getHeader _ _ _ := none
  isWebsocketUpgrade _ := false

/-- A parser that finds a request for the login. -/
def loginEnv (method : Bytes) : ServeEnv Unit Unit OpenaiData where
  parser := loginParser method
  vtbl _ := some (openaiVtbl 0 true)
  net := answering []
  files _ := none
  clock := epoch
  hubAlloc _ := true
  allocPluginBody := true
  allocUpstream := true
  allocStatic := true
  overrunPrincipal := edgePrincipalClear

/-- A process with the proxy and nothing else. -/
def proxyWorld : ServeWorld Unit OpenaiData where
  store := none
  hub := none
  plugins := some replyingHost
  mem := openaiData edgeOpenaiProxyConfigDefaults []
  metrics := none

/-- The connection behind such a request. -/
def loginServe (method : Bytes) : EdgeHttp1Serve Unit :=
  { modelsServe with
    method
    path := bytes "/auth/lab-login" }

theorem feedRequest_delete :
    feedRequest (loginEnv (bytes "DELETE")) freshServe proxyWorld [71]
      = some (loginServe (bytes "DELETE"), proxyWorld) := by
  rfl

theorem feedRequest_post :
    feedRequest (loginEnv (bytes "POST")) freshServe proxyWorld [71]
      = some (loginServe (bytes "POST"), proxyWorld) := by
  rfl

theorem not_passesThrough_login (method : Bytes) :
    ¬PassesThrough (loginEnv method) 0 true (loginServe method) proxyWorld := by
  rintro ⟨h, p, hreq, -⟩
  exact absurd hreq.path (show ¬pathIsV1 (bytes "/auth/lab-login") by decide)

theorem dispatch_login :
    dispatch (loginEnv (bytes "POST")) (loginServe (bytes "POST")) proxyWorld 2048
      = answer (loginServe (bytes "POST")) proxyWorld 2048 503 (bytes "Service Unavailable") jsonType
          (countedError (bytes "AUTH_DISABLED") 26) := by
  have hserved : dispatchLabLogin (loginEnv (bytes "POST")) (loginServe (bytes "POST")) proxyWorld 2048
      = some (answer (loginServe (bytes "POST")) proxyWorld 2048 503 (bytes "Service Unavailable")
          jsonType (countedError (bytes "AUTH_DISABLED") 26)) :=
    (if_neg (show ¬(!pathIsLabLogin (bytes "/auth/lab-login")) = true by decide)).trans
      (if_neg (show ¬(bytes "POST" ≠ bytes "POST") by decide))
  rw [dispatch, hserved]

/-- A request with another method than the login has is told so. -/
theorem errorsWellFormed_delete :
    ErrorsWellFormed
      (edgeHttp1ServeFeed (loginEnv (bytes "DELETE")) freshServe proxyWorld [71] 2048) := by
  have henv : RunsProxy (loginEnv (bytes "DELETE")) 0 true := rfl
  refine (errorsWellFormed_iff (by decide) henv [71] fun s w h => ?_).mpr fun s w h hmis => ?_
  · obtain ⟨rfl, rfl⟩ := Prod.mk.inj (Option.some.inj (feedRequest_delete.symm.trans h))
    exact not_passesThrough_login _
  · obtain ⟨rfl, rfl⟩ := Prod.mk.inj (Option.some.inj (feedRequest_delete.symm.trans h))
    have hpath : pathIsLabLogin (loginServe (bytes "DELETE")).path := by decide
    rw [Miscounts, if_pos hpath] at hmis
    exact absurd hmis.1 (show ¬bytes "DELETE" = bytes "POST" by decide)

/-- **A login to a process without passwords is answered with a NUL behind the JSON.** -/
theorem not_errorsWellFormed_login :
    (∀ s w, feedRequest (loginEnv (bytes "POST")) freshServe proxyWorld [71] = some (s, w) →
      ¬PassesThrough (loginEnv (bytes "POST")) 0 true s w) ∧
    WritesError (edgeHttp1ServeFeed (loginEnv (bytes "POST")) freshServe proxyWorld [71] 2048) 26
      (errorBody (bytes "AUTH_DISABLED") ++ [0]) ∧
    ¬ErrorsWellFormed
      (edgeHttp1ServeFeed (loginEnv (bytes "POST")) freshServe proxyWorld [71] 2048) := by
  rw [feed_of_feedRequest feedRequest_post, dispatch_login, errorsWellFormed_finishServed_iff]
  refine ⟨fun s w h => ?_, ?_, ?_⟩
  · obtain ⟨rfl, rfl⟩ := Prod.mk.inj (Option.some.inj (feedRequest_post.symm.trans h))
    exact not_passesThrough_login _
  · have hhead := length_responseHead_json 503 (bytes "Service Unavailable") 26
    have hparts : (decimalInt 503).length = 3 ∧ (bytes "Service Unavailable").length = 19 ∧
        (decimal 26).length = 2 := by decide
    have hbody : (countedError (bytes "AUTH_DISABLED") 26).length = 26 := by decide
    rw [writesError_finishServed_iff, writesError_answer_iff _ _ (by decide) (by decide) (by decide),
      hbody]
    exact ⟨by omega, by decide, rfl, rfl, by decide⟩
  · exact not_wellFormed_counted _ _ (by decide) (by decide) (by decide) (by decide) (by decide)

end Edgehost
