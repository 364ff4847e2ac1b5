import Edgehost.Core.AuthIssued
import Edgehost.Host.Http1Serve

/-!
# Replies of plugins

What becomes of a plugin's result in `edge_http1_serve_feed`: the response is built in the send buffer
of the connection, which `edge_iouring_run` sizes by the limit on static files.

* `requireRbac_eq_none_iff` — the gate of a route.
* `feed_v1`                 — an authorised request under `/v1` is answered by its plugin.
* `v1_answered_iff`         — the whole reply is sent exactly when it fits the send buffer.
-/

namespace Edgehost

/-- The size of a send buffer in `edge_iouring_run`. The sum is a `size_t`. -/
def sendCap (cfg : EdgeConfig) : ℕ :=
  let maxf := if cfg.staticMaxFileBytes ≠ 0 then cfg.staticMaxFileBytes else 64 * 1024
  let cap := (maxf + 512) % 2 ^ 64
  let cap := if cap < 4096 then 4096 else cap
  if cap < EDGE_WS_MSG_MAX + 32 then EDGE_WS_MSG_MAX + 32 else cap

theorem msgMax_le_sendCap (cfg : EdgeConfig) : EDGE_WS_MSG_MAX + 32 ≤ sendCap cfg := by
  unfold sendCap
  dsimp only
  split_ifs <;> omega

theorem le_sendCap (cfg : EdgeConfig) : 64 ≤ sendCap cfg :=
  (by decide : 64 ≤ EDGE_WS_MSG_MAX + 32).trans (msgMax_le_sendCap cfg)

variable {η P υ : Type*}

/-! ## Routes -/

theorem prefix_of_isRoute {route path : Bytes} (h : isRoute route path) : route <+: path := by
  rcases Bool.or_eq_true_iff.mp h with heq | hquery
  · exact of_decide_eq_true heq ▸ List.prefix_rfl
  · exact (List.prefix_append _ _).trans (List.isPrefixOf_iff_prefix.mp hquery)

/-- Two different beginnings of a path. -/
theorem not_isRoute {a route path : Bytes} (ha : a <+: path) (hne : ¬a <+: route)
    (hlen : a.length ≤ route.length) : isRoute route path = false :=
  Bool.eq_false_iff.mpr fun h =>
    hne (List.prefix_of_prefix_length_le ha (prefix_of_isRoute h) hlen)

theorem prefix_of_pathIsV1 {path : Bytes} (h : pathIsV1 path) : bytes "/v1" <+: path := by
  rcases Bool.or_eq_true_iff.mp h with hfront | heq
  · exact (show bytes "/v1" <+: bytes "/v1/" by decide).trans (List.isPrefixOf_iff_prefix.mp hfront)
  · exact of_decide_eq_true heq ▸ List.prefix_rfl

/-! ## Access -/

/-- The principal of a request may use a resource, or nothing is enforced. -/
def Authorised (s : EdgeHttp1Serve η) (res : EdgeAuthResource) : Prop :=
  authEnforced s → s.principal.authenticated ∧ edgeAuthRbacCheck (some s.principal) res = .allow

/-- **The gate opens exactly for authorised requests.** -/
theorem requireRbac_eq_none_iff (s : EdgeHttp1Serve η) (w : ServeWorld P υ) (outCap : ℕ)
    {res : EdgeAuthResource} (hres : res ≠ .resNone) :
    requireRbac s w outCap res = none ↔ Authorised s res := by
  unfold requireRbac Authorised
  by_cases henf : authEnforced s
  · by_cases hauth : s.principal.authenticated
    · by_cases hallow : edgeAuthRbacCheck (some s.principal) res = .allow <;>
        simp [henf, hres, hauth, hallow]
    · simp [henf, hres, hauth]
  · simp [henf]

/-! ## Reaching a plugin -/

/-- The connection once its request is complete. -/
def readyRequest (s : EdgeHttp1Serve η) : Option (EdgeHttp1Serve η) :=
  if !s.headersDone then none
  else if (s.method = bytes "PUT" ∨ s.method = bytes "POST") ∧ s.contentLength > 0 then
    if (waitFullBody s).2 then some (waitFullBody s).1 else none
  else some s

/-- The connection and the world when a feed comes to `dispatch`, if it does. -/
def feedRequest (env : ServeEnv η P υ) (s : EdgeHttp1Serve η) (w : ServeWorld P υ) (data : Bytes) :
    Option (EdgeHttp1Serve η × ServeWorld P υ) :=
  if s.done ∨ data = [] ∨ s.acc.length + data.length > EDGE_HTTP_ACC_MAX then none
  else
    let w := countInput w data
    let r := feedParser env s w.hub data
    if r.2.2 then none else (readyRequest r.1).map fun s => (s, { w with hub := r.2.1 })

theorem feedParsed_of_ready (env : ServeEnv η P υ) {s s' : EdgeHttp1Serve η} (w : ServeWorld P υ)
    (outCap : ℕ) (h : readyRequest s = some s') :
    feedParsed env s w outCap = finishServed (dispatch env s' w outCap) := by
  unfold readyRequest at h
  unfold feedParsed
  split_ifs at h ⊢ with hheaders hbody hfull
  · obtain rfl := Option.some.inj h
    rw [show waitFullBody s = ((waitFullBody s).1, true) from Prod.ext rfl hfull]
    rfl
  · obtain rfl := Option.some.inj h
    rfl

/-- A feed comes to `dispatch` when it is taken, parsed without an error and the request is whole. -/
theorem feedRequest_eq_some_iff {env : ServeEnv η P υ} {s s' : EdgeHttp1Serve η}
    {w w' : ServeWorld P υ} {data : Bytes} :
    feedRequest env s w data = some (s', w') ↔
      (¬s.done ∧ data ≠ [] ∧ s.acc.length + data.length ≤ EDGE_HTTP_ACC_MAX) ∧
        ¬(feedParser env s w.hub data).2.2 ∧ readyRequest (feedParser env s w.hub data).1 = some s' ∧
          w' = { countInput w data with hub := (feedParser env s w.hub data).2.1 } := by
  unfold feedRequest
  rw [Option.ite_none_left_eq_some, not_or, not_or, not_lt]
  refine and_congr_right fun _ => ?_
  dsimp only
  rw [show (countInput w data).hub = w.hub from rfl, Option.ite_none_left_eq_some]
  refine and_congr_right fun _ => ?_
  constructor
  · intro h
    obtain ⟨s₁, hready, heq⟩ := Option.map_eq_some_iff.mp h
    obtain ⟨rfl, rfl⟩ := Prod.mk.inj heq
    exact ⟨hready, rfl⟩
  · rintro ⟨hready, rfl⟩
    rw [hready]
    rfl

theorem feed_of_feedRequest {env : ServeEnv η P υ} {s s' : EdgeHttp1Serve η} {w w' : ServeWorld P υ}
    {data : Bytes} (h : feedRequest env s w data = some (s', w')) (outCap : ℕ) :
    edgeHttp1ServeFeed env s w data outCap = finishServed (dispatch env s' w' outCap) := by
  obtain ⟨⟨hopen, hdata, hroom⟩, hgood, hready, rfl⟩ := feedRequest_eq_some_iff.mp h
  unfold edgeHttp1ServeFeed
  rw [if_neg hopen, if_neg hdata]
  dsimp only
  rw [if_neg (by omega), show (countInput w data).hub = w.hub from rfl, if_neg hgood]
  exact feedParsed_of_ready env _ outCap hready

/-- A request that is let through to plugin `p` of host `h`. -/
structure ForPlugin (s : EdgeHttp1Serve η) (w : ServeWorld P υ) (h : EdgePluginHost P) (p : P) :
    Prop where
  path : pathIsV1 s.path
  plugins : w.plugins = some h
  plugin : edgePluginHostMatch h s.path = some p
  authorised : Authorised s .resOpenai

/-- The connection when it calls a plugin. -/
def v1Serve (s : EdgeHttp1Serve η) : EdgeHttp1Serve η :=
  locateBody (if authEnforced s then s else { s with principal := labPrincipal })

/-- What the plugin makes of a request. -/
def v1Result (env : ServeEnv η P υ) (s : EdgeHttp1Serve η) (w : ServeWorld P υ)
    (h : EdgePluginHost P) (p : P) : HostResult P υ :=
  runPlugin env (v1Serve s) w h p

theorem dispatch_eq_dispatchV1 (env : ServeEnv η P υ) {s : EdgeHttp1Serve η} {w : ServeWorld P υ}
    {h : EdgePluginHost P} (hpath : pathIsV1 s.path) (hplugins : w.plugins = some h) (outCap : ℕ) :
    dispatch env s w outCap = dispatchV1 env s w outCap h := by
  have hv1 := prefix_of_pathIsV1 hpath
  have hlogin : dispatchLabLogin env s w outCap = none :=
    if_pos (by rw [pathIsLabLogin, not_isRoute hv1 (by decide) (by decide)]; rfl)
  have hme : dispatchAuthMe s w outCap = none :=
    if_pos (by rw [pathIsAuthMe, not_isRoute hv1 (by decide) (by decide)]; rfl)
  have hhost : v1Host s w = some h := (if_pos hpath).trans hplugins
  rw [dispatch, hlogin, hme, hhost]

/-- The gate in front of a plugin, with the principal that it gets. -/
theorem v1_gate {s : EdgeHttp1Serve η} (w : ServeWorld P υ) (h : Authorised s .resOpenai)
    (outCap : ℕ) :
    requireRbac (if authEnforced s then s else { s with principal := labPrincipal }) w outCap
      .resOpenai = none := by
  rw [requireRbac_eq_none_iff _ _ _ (by decide)]
  by_cases henf : authEnforced s
  · rw [if_pos henf]
    exact h
  · rw [if_neg henf]
    exact fun h => absurd h henf

theorem dispatch_v1 {env : ServeEnv η P υ} {s : EdgeHttp1Serve η} {w : ServeWorld P υ}
    {h : EdgePluginHost P} {p : P} (hreq : ForPlugin s w h p) (halloc : env.allocPluginBody)
    (outCap : ℕ) :
    dispatch env s w outCap
      = answerPlugin (v1Serve s) (afterHost w (v1Result env s w h p)) outCap
          (v1Result env s w h p).res := by
  rw [dispatch_eq_dispatchV1 env hreq.path hreq.plugins, dispatchV1, hreq.plugin]
  dsimp only
  rw [v1_gate w hreq.authorised]
  exact if_neg (by simpa using halloc)

theorem dispatch_v1_nomem {env : ServeEnv η P υ} {s : EdgeHttp1Serve η} {w : ServeWorld P υ}
    {h : EdgePluginHost P} {p : P} (hreq : ForPlugin s w h p) (halloc : ¬env.allocPluginBody)
    (outCap : ℕ) :
    dispatch env s w outCap
      = ⟨if authEnforced s then s else { s with principal := labPrincipal }, w, -1, []⟩ := by
  rw [dispatch_eq_dispatchV1 env hreq.path hreq.plugins, dispatchV1, hreq.plugin]
  dsimp only
  rw [v1_gate w hreq.authorised]
  exact if_pos (by simpa using halloc)

/-- **An authorised request under `/v1` is answered by its plugin.** -/
theorem feed_v1 {env : ServeEnv η P υ} {s s' : EdgeHttp1Serve η} {w w' : ServeWorld P υ}
    {data : Bytes} {h : EdgePluginHost P} {p : P} (hfeed : feedRequest env s w data = some (s', w'))
    (hreq : ForPlugin s' w' h p) (halloc : env.allocPluginBody) (outCap : ℕ) :
    edgeHttp1ServeFeed env s w data outCap
      = finishServed (answerPlugin (v1Serve s') (afterHost w' (v1Result env s' w' h p)) outCap
          (v1Result env s' w' h p).res) := by
  rw [feed_of_feedRequest hfeed, dispatch_v1 hreq halloc]

/-! ## The send buffer -/

/-- The header block for a plugin's result. -/
def pluginHead (res : EdgeHttpRes) : Bytes :=
  responseHead res.status (if res.reason = [] then bytes "OK" else res.reason)
    (if res.contentType = [] then jsonType else res.contentType) [] res.text.length

/-- A response is built exactly when it is shorter than its buffer. -/
theorem buildResponse_eq {outCap : ℕ} (hcap : 64 ≤ outCap) (status : ℤ) (reason ctype body : Bytes) :
    buildResponse outCap status reason ctype body
      = if (responseHead status reason ctype [] body.length).length + body.length < outCap then
          some (responseHead status reason ctype [] body.length ++ body)
        else none := by
  rw [buildResponse, buildResponseEx, if_neg (by omega)]
  dsimp only
  split_ifs
  · omega
  · rfl
  · omega
  · rfl
  · rfl
  · omega

/-- The response that `feed` leaves is the plugin's status and whole body. -/
def Answered (r : Served η P υ) (res : EdgeHttpRes) : Prop :=
  r.ret = 1 ∧ r.out = pluginHead res ++ res.text

theorem buildResponse_plugin {outCap : ℕ} (hcap : 64 ≤ outCap) (res : EdgeHttpRes) :
    buildResponseEx outCap res.status (if res.reason = [] then bytes "OK" else res.reason)
        (if res.contentType = [] then jsonType else res.contentType) [] res.text
      = if (pluginHead res).length + res.text.length < outCap then some (pluginHead res ++ res.text)
        else none :=
  buildResponse_eq hcap _ _ _ _

/-- A reply that does not fit ends the call with -1. -/
theorem ret_of_not_fits (s : EdgeHttp1Serve η) (w : ServeWorld P υ) {outCap : ℕ} (hcap : 64 ≤ outCap)
    {res : EdgeHttpRes} (h : ¬(pluginHead res).length + res.text.length < outCap) :
    (finishServed (answerPlugin s w outCap res)).ret = -1 := by
  rw [answerPlugin, answer, answerEx, buildResponse_plugin hcap, if_neg h]
  rfl

theorem answered_answerPlugin_iff (s : EdgeHttp1Serve η) (w : ServeWorld P υ) {outCap : ℕ}
    (hcap : 64 ≤ outCap) (res : EdgeHttpRes) :
    Answered (finishServed (answerPlugin s w outCap res)) res
      ↔ (pluginHead res).length + res.text.length < outCap := by
  by_cases hfits : (pluginHead res).length + res.text.length < outCap
  · rw [answerPlugin, answer, answerEx, buildResponse_plugin hcap, if_pos hfits]
    exact iff_of_true ⟨rfl, rfl⟩ hfits
  · exact iff_of_false (fun h => absurd (h.1.symm.trans (ret_of_not_fits s w hcap hfits)) (by decide))
      hfits

/-- **An authorised request under `/v1` gets its plugin's whole reply exactly when the plugin's body
buffer can be allocated and the reply is shorter than the send buffer.** -/
theorem v1_answered_iff (cfg : EdgeConfig) (env : ServeEnv η P υ) {s s' : EdgeHttp1Serve η}
    {w w' : ServeWorld P υ} {data : Bytes} {h : EdgePluginHost P} {p : P}
    (hfeed : feedRequest env s w data = some (s', w')) (hreq : ForPlugin s' w' h p) :
    Answered (edgeHttp1ServeFeed env s w data (sendCap cfg)) (v1Result env s' w' h p).res
      ↔ env.allocPluginBody
        ∧ (pluginHead (v1Result env s' w' h p).res).length + (v1Result env s' w' h p).res.text.length
          < sendCap cfg := by
  by_cases halloc : env.allocPluginBody
  · rw [feed_v1 hfeed hreq halloc,
      answered_answerPlugin_iff _ _ (le_sendCap cfg)]
    exact (and_iff_right halloc).symm
  · rw [feed_of_feedRequest hfeed, dispatch_v1_nomem hreq halloc]
    exact iff_of_false (fun h => absurd h.1 (show ¬(-1 : ℤ) = 1 by decide)) fun h => halloc h.1

/-! ## A plugin that replies at once -/

/-- A parser that finds a request for `/v1/models` in whatever comes. -/
def modelsParser : Http1Parser Unit where
  feedInput _ _ :=
    ([(.requestLine (bytes "GET") (bytes "/v1/models"), ()), (.headersComplete, ())], ())
  getHeader _ _ _ := none
  isWebsocketUpgrade _ := false

/-- A plugin that replies with one body to every request. -/
def replying (body : Bytes) : EdgePluginVtbl Unit where
  kind := .http
  init := none
  onHttp := some fun _ res _ =>
    .ret ⟨EDGE_PLUGIN_OK, { res with status := 200, body := some body, bodyLen := body.length }, ()⟩
  onHttpComplete := none

def replyingEnv (body : Bytes) : ServeEnv Unit Unit Unit where
  parser := modelsParser
  vtbl _ := some (replying body)
  net := answering []
  files _ := none
  clock := epoch
  hubAlloc _ := true
  allocPluginBody := true
  allocUpstream := true
  allocStatic := true
  overrunPrincipal := edgePrincipalClear

def replyingHost : EdgePluginHost Unit :=
  { edgePluginHostCreate 1 none with plugins := [()], routes := [(bytes "/v1", ())] }

/-- A process with that plugin and nothing else. -/
def replyingWorld : ServeWorld Unit Unit where
  store := none
  hub := none
  plugins := some replyingHost
  mem := ()
  metrics := none

/-- A new connection under the default configuration, with nothing enforced. -/
def freshServe : EdgeHttp1Serve Unit where
  h1 := ()
  method := []
  path := []
  headersDone := false
  done := false
  roots := ⟨none, none, 0⟩
  auth := none
  principal := edgePrincipalClear
  allowBlockingDns := false
  maxUpstreamBody := edgeConfigDefaults.httpMaxUpstreamBodyBytes
  serviceApiKey := none
  inboundSlot := 0
  acc := []
  contentLength := -1
  bodyOff := none
  wsUpgrade := false
  wsKey := []
  requestId := []

/-- That connection with the request for `/v1/models`. -/
def modelsServe : EdgeHttp1Serve Unit :=
  { freshServe with
    method := bytes "GET"
    path := bytes "/v1/models"
    headersDone := true
    acc := [71]
    contentLength := 0
    requestId := bytes "eh0" }

theorem feedRequest_models (body : Bytes) :
    feedRequest (replyingEnv body) freshServe replyingWorld [71]
      = some (modelsServe, replyingWorld) := by
  rfl

theorem modelsServe_forPlugin : ForPlugin modelsServe replyingWorld replyingHost () where
  path := by decide
  plugins := rfl
  plugin := by decide
  authorised := fun h => absurd h (by decide)

/-- What the plugin replies to it. -/
def modelsReply (body : Bytes) : EdgeHttpRes :=
  (v1Result (replyingEnv body) modelsServe replyingWorld replyingHost ()).res

theorem modelsReply_text (body : Bytes) : (modelsReply body).text = body :=
  List.take_length

theorem models_ret {body : Bytes}
    (h : ¬(pluginHead (modelsReply body)).length + (modelsReply body).text.length
      < sendCap edgeConfigDefaults) :
    (edgeHttp1ServeFeed (replyingEnv body) freshServe replyingWorld [71]
      (sendCap edgeConfigDefaults)).ret = -1 := by
  rw [feed_v1 (feedRequest_models body) modelsServe_forPlugin rfl]
  exact ret_of_not_fits _ _ (le_sendCap edgeConfigDefaults) h

theorem v1_answered_ok :
    Answered (edgeHttp1ServeFeed (replyingEnv (bytes "ok")) freshServe replyingWorld [71]
      (sendCap edgeConfigDefaults)) (modelsReply (bytes "ok")) :=
  (v1_answered_iff edgeConfigDefaults (replyingEnv (bytes "ok")) (feedRequest_models (bytes "ok"))
    modelsServe_forPlugin).mpr ⟨rfl, by decide +kernel⟩

/-- A reply of 70000 bytes, well below the limit on upstream bodies, closes the connection. -/
theorem not_v1_answered_long :
    edgeConfigValidate (some edgeConfigDefaults) 0 = .ok ()
      ∧ (modelsReply (List.replicate 70000 97)).text.length
        ≤ edgeConfigDefaults.httpMaxUpstreamBodyBytes
      ∧ (edgeHttp1ServeFeed (replyingEnv (List.replicate 70000 97)) freshServe replyingWorld [71]
        (sendCap edgeConfigDefaults)).ret = -1 := by
  have hlong : ¬(pluginHead (modelsReply (List.replicate 70000 97))).length
      + (modelsReply (List.replicate 70000 97)).text.length < sendCap edgeConfigDefaults := by
    rw [modelsReply_text, List.length_replicate, show sendCap edgeConfigDefaults = 66048 by decide]
    omega
  refine ⟨(edgeConfigValidate_ok_iff _ _).mpr edgeConfigDefaults_valid, ?_, models_ret hlong⟩
  rw [modelsReply_text, List.length_replicate]
  decide

end Edgehost
