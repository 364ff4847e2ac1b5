import Edgehost.Host.ErrorBodies

/-!
# The errors of the OpenAI proxy

What the proxy refuses, and what it makes of an upstream that fails, comes back through the plugin host and
is answered like any result of a plugin. The bodies are its own, but for that of an upstream that answers.

* `ProxyMiscounts`: the calls that come to a miscounted text.
* `answerPlugin_proxy_iff`: every other error of the proxy is well formed.
-/

namespace Edgehost

variable {η P : Type*}

/-! ## A plugin's errors -/

/-- A result that refuses, with a counted text in JSON. -/
structure Refuses (res : EdgeHttpRes) (status : ℤ) (reason name : Bytes) (len : ℕ) : Prop where
  status : res.status = status
  reason : (if res.reason = [] then bytes "OK" else res.reason) = reason
  contentType : (if res.contentType = [] then jsonType else res.contentType) = jsonType
  text : res.text = countedError name len

theorem Refuses.wellFormed_iff {res : EdgeHttpRes} {status : ℤ} {reason name : Bytes} {len : ℕ}
    (h : Refuses res status reason name len) (hshort : ShortError status reason name)
    (hlo : name.length + 11 ≤ len) (hhi : len ≤ name.length + 13) (s : EdgeHttp1Serve η)
    (w : ServeWorld P OpenaiData) {outCap : ℕ} (hcap : 1024 ≤ outCap) :
    ErrorsWellFormed (answerPlugin s w outCap res) ↔ len = name.length + 12 := by
  rw [answerPlugin, h.status, h.reason, h.contentType, h.text]
  exact errorsWellFormed_counted_iff s w hcap hshort hlo hhi

/-- The text that `edge_http_res_set_body` leaves. -/
theorem text_setBody (res : EdgeHttpRes) {buf : Bytes} {len : ℕ} (data : Bytes) (hbody : res.body = some buf)
    (hcap : len ≤ res.bodyCap) (hlen : len ≤ data.length) :
    (edgeHttpResSetBody res data len).1.text = data.take len := by
  have htake : (data.take len).length = len := by
    rw [List.length_take]
    omega
  rw [edgeHttpResSetBody, hbody]
  dsimp only
  rw [if_neg (by omega), EdgeHttpRes.text, Option.getD_some]
  exact List.take_left' htake

/-- It leaves the rest of the response. -/
theorem setBody_keeps (res : EdgeHttpRes) (data : Bytes) (len : ℕ) :
    (edgeHttpResSetBody res data len).1.status = res.status ∧
      (edgeHttpResSetBody res data len).1.reason = res.reason ∧
      (edgeHttpResSetBody res data len).1.contentType = res.contentType := by
  unfold edgeHttpResSetBody
  cases hbody : res.body with
  | none => exact ⟨rfl, rfl, rfl⟩
  | some body =>
    dsimp only
    by_cases hlen : len > res.bodyCap
    · rw [if_pos hlen]
      exact ⟨rfl, rfl, rfl⟩
    · rw [if_neg hlen]
      exact ⟨rfl, rfl, rfl⟩

/-! ## The call -/

/-- The request that a plugin gets. -/
def pluginReq (s : EdgeHttp1Serve η) : EdgeHttpReq where
  method := s.method
  path := s.path
  query := none
  headers := []
  body := bodyBytes s
  principal := some s.principal
  inboundSlot := s.inboundSlot

/-- The response that it is to fill. -/
def pluginRes (s : EdgeHttp1Serve η) : EdgeHttpRes where
  status := 0
  reason := []
  contentType := []
  body := some (List.replicate (pluginBodyCap s.maxUpstreamBody) 0)
  bodyLen := 0
  bodyCap := pluginBodyCap s.maxUpstreamBody

theorem le_pluginBodyCap (n : ℕ) : 65536 ≤ pluginBodyCap n := by
  unfold pluginBodyCap
  dsimp only
  split_ifs
  all_goals omega

/-- A refusal of the proxy, in a response that it has not filled. -/
theorem refuses_refuseWith {d : OpenaiData} {res : EdgeHttpRes} {buf : Bytes} {status : ℤ}
    {text : String} {name : Bytes} {len : ℕ} (hbody : res.body = some buf)
    (hctype : (if res.contentType = [] then jsonType else res.contentType) = jsonType)
    (hcap : 65536 ≤ res.bodyCap) (hlen : len < 65536) (htext : bytes text = errorBody name)
    (hle : len ≤ (errorBody name).length) :
    Refuses (refuseWith d res status text len).res status
      (if res.reason = [] then bytes "OK" else res.reason) name len where
  status := (setBody_keeps _ _ _).1
  reason := by rw [refuseWith, (setBody_keeps _ _ _).2.1]
  contentType := by rw [refuseWith, (setBody_keeps _ _ _).2.2]; exact hctype
  text := by
    have htake := text_setBody { res with status } (errorBody name) hbody
      (by omega : len ≤ res.bodyCap) hle
    rw [refuseWith, htext, htake, countedError, List.take_append_of_le_length hle]

/-- The result of a call that may be pending, once it is completed. -/
def finishPlugin {υ : Type*} (env : ServeEnv η P υ) (s : EdgeHttp1Serve η) (r : HostResult P υ) :
    HostResult P υ :=
  if r.status = EDGE_PLUGIN_PENDING then
    edgePluginHostFinishPendingSync env.vtbl env.net env.allocUpstream r.host r.mem
      s.allowBlockingDns s.maxUpstreamBody r.res
  else r

/-- A result with a status. -/
def withStatus {υ : Type*} (r : HostResult P υ) : HostResult P υ :=
  if r.res.status = 0 then
    { r with res := { r.res with status := if r.status = EDGE_PLUGIN_OK then 200 else 500 } }
  else r

theorem runPlugin_eq {υ : Type*} (env : ServeEnv η P υ) (s : EdgeHttp1Serve η) (w : ServeWorld P υ)
    (h : EdgePluginHost P) (p : P) :
    runPlugin env s w h p
      = withStatus (finishPlugin env s (edgePluginHostDispatchHttp env.vtbl (hostOver w h) w.mem
          (some p) (pluginReq s) (pluginRes s))) := rfl

theorem withStatus_res {υ : Type*} (r : HostResult P υ) :
    ∃ status, (withStatus r).res = { r.res with status } := by
  by_cases h : r.res.status = 0
  · exact ⟨if r.status = EDGE_PLUGIN_OK then 200 else 500, by rw [withStatus, if_pos h]⟩
  · exact ⟨r.res.status, by rw [withStatus, if_neg h]⟩

theorem withStatus_of_ne {υ : Type*} {r : HostResult P υ} (h : r.res.status ≠ 0) : withStatus r = r :=
  if_neg h

/-! ## A request that is sent -/

/-- An entry that is inserted is found by its id. -/
theorem findOutbound_insert {t : EdgePendingTable P} {slot : UInt32} {id : UInt64}
    (hacc : t.Accepts slot id) (p : P) (tag : UInt64) (timeout : UInt32) (started : UInt64)
    (sub : Option Bytes) :
    ∃ i e, edgePendingFindOutbound (edgePendingInsert t slot id (some p) tag timeout started sub).1 id
        = some (i, e) ∧ e.plugin = some p := by
  obtain ⟨-, i, old, hold, -, heq⟩ | ⟨hno, -⟩ := t.insert_cases slot id p tag timeout started sub
  · have hi := (List.getElem?_eq_some_iff.mp hold).1
    rw [heq, edgePendingFindOutbound, if_neg hacc.1]
    cases hfound : outboundView.locate
        (t.slots.set i (newPendingEntry slot id (some p) tag timeout started sub)) id with
    | none =>
      rw [SlotView.locate_eq_none, SlotView.find_eq_none] at hfound
      exact absurd rfl (hfound _ (List.mem_set hi _) rfl)
    | some x =>
      obtain ⟨j, e⟩ := x
      obtain ⟨-, he, hused, hid⟩ := SlotView.locate_eq_some hfound
      refine ⟨j, e, rfl, ?_⟩
      rcases List.mem_or_eq_of_mem_set (List.mem_of_getElem? he) with hold' | rfl
      · exact absurd hid (outboundView.find_eq_none.mp hacc.2.2.2.1 e hold' hused)
      · rfl
  · exact absurd hacc hno

/-- The host finds what it has accepted. -/
theorem accepted_pending {h : EdgePluginHost P} {req : EdgeHttpClientReq} {outId alloc : Bool}
    {id : UInt64}
    (hacc : (apiAnswer h (.httpClientRequest (some req) outId alloc)).2 = .accepted id) :
    id ≠ 0 ∧ ∃ i e, edgePendingFindOutbound
        (apiAnswer h (.httpClientRequest (some req) outId alloc)).1.pending id = some (i, e) ∧
      e.plugin = h.activePlugin := by
  obtain ⟨plugin, hplugin, -, -, pending, hins, heq⟩ := accepted_eq hacc
  rw [heq, hplugin]
  rcases (storeLastReq h req alloc).1.pending.insert_cases (storeLastReq h req alloc).1.activeInboundSlot
      id plugin req.userTag req.timeoutMs 0 none with ⟨hok, -⟩ | ⟨-, hfull⟩
  · have hfound := findOutbound_insert hok plugin req.userTag req.timeoutMs 0 none
    rw [hins] at hfound
    exact ⟨hok.1, hfound⟩
  · have hrc := congrArg Prod.snd (hins.symm.trans hfull)
    exact absurd hrc (show (0 : ℤ) ≠ -1 by decide)

theorem lastClientReq_storeLastReq {h : EdgePluginHost P} {req : EdgeHttpClientReq} {alloc : Bool}
    (hrc : (storeLastReq h req alloc).2 = 0) :
    ∃ creq, edgePluginHostLastClientReq (storeLastReq h req alloc).1 = some creq := by
  obtain ⟨method, url, -, -, heq⟩ := storeLastReq_eq hrc
  rw [heq]
  exact ⟨_, rfl⟩

/-- The completion of an entry of the proxy. -/
theorem complete_proxy (now : ℤ) (alloc : Bool) {h : EdgePluginHost P} {i : ℕ}
    {e : EdgePendingEntry P} {p : P} {up : EdgeHttpClientResult} (hid : up.outboundId ≠ 0)
    (hfound : edgePendingFindOutbound h.pending up.outboundId = some (i, e))
    (hplugin : e.plugin = some p) (d : OpenaiData) (res : EdgeHttpRes) :
    ((openaiOnHttpComplete up res d).status = EDGE_PLUGIN_ERR →
      (openaiOnHttpComplete up res d).res.status ≠ 0 →
      (edgePluginHostCompleteOutbound (fun _ => some (openaiVtbl now alloc)) h d up res).res
        = (openaiOnHttpComplete up res d).res) ∧
    ((openaiOnHttpComplete up res d).status = EDGE_PLUGIN_OK →
      (edgePluginHostCompleteOutbound (fun _ => some (openaiVtbl now alloc)) h d up res).res
        = (openaiOnHttpComplete up res d).res) := by
  unfold edgePluginHostCompleteOutbound
  rw [if_neg hid, hfound]
  dsimp only
  rw [hplugin]
  constructor
  · intro hstatus hres
    have hpending : ¬(openaiOnHttpComplete up res d).status = EDGE_PLUGIN_PENDING := by
      rw [hstatus]
      decide
    have hok : ¬(openaiOnHttpComplete up res d).status = EDGE_PLUGIN_OK := by
      rw [hstatus]
      decide
    -- The host fills in a status only where the plugin has left none.
    exact congrArg HostResult.res ((if_neg hpending).trans ((if_neg hok).trans
      (congrArg (HostResult.mk _ _ · _) (if_neg hres))))
  · intro hstatus
    have hpending : ¬(openaiOnHttpComplete up res d).status = EDGE_PLUGIN_PENDING := by
      rw [hstatus]
      decide
    exact congrArg HostResult.res ((if_neg hpending).trans (if_pos hstatus))

/-- The environment whose plugins are the proxy. -/
def RunsProxy (env : ServeEnv η P OpenaiData) (now : ℤ) (alloc : Bool) : Prop :=
  env.vtbl = fun _ => some (openaiVtbl now alloc)

section Proxy

variable (env : ServeEnv η P OpenaiData) (now : ℤ) (alloc : Bool) (s : EdgeHttp1Serve η)
  (w : ServeWorld P OpenaiData) (h : EdgePluginHost P) (p : P)

/-- The proxy looks at the request: no call of this connection is pending, the proxy is enabled, and the
principal may use it. -/
structure ProxyAdmits : Prop where
  free : edgePendingFindInbound h.pending s.inboundSlot = none
  enabled : w.mem.cfg.enabled
  principal : principalAllowed (some s.principal)

/-- The request passes the checks up to the key. -/
structure ProxyTakes : Prop where
  route : routeAllowed s.method s.path
  body : bodyLooksOk (bodyBytes s) s.method
  rate : (rateLimitOk now w.mem).2
  idle : ¬(rateLimitOk now w.mem).1.Busy

/-- The host while the proxy runs. -/
def proxyHost : EdgePluginHost P := enterOnHttp (hostOver w h) p s.inboundSlot

/-- What the proxy asks the host for. -/
def proxyAsks : EdgeHttpClientReq := upstreamReq (rateLimitOk now w.mem).1 (pluginReq s)

/-- The host sends the request of the proxy. -/
def ProxySends : Prop :=
  w.mem.apiKey ≠ [] ∧
    Acceptable (proxyHost s w h p) (.httpClientRequest (some (proxyAsks now s w)) true alloc)

/-- The outcome of that request. -/
def proxyUpstream : Option EdgeHttpClientResult :=
  (edgePluginHostLastClientReq (storeLastReq (proxyHost s w h p) (proxyAsks now s w) alloc).1).map
    fun creq => executedUpstream env.net creq s.allowBlockingDns s.maxUpstreamBody

/-- The upstream fails, but not by a timeout, or its body has no room. -/
def UpstreamMiscounts (up : EdgeHttpClientResult) : Prop :=
  (up.transportErr ≠ 0 ∧ up.transportErr ≠ ETIMEDOUT) ∨
    (up.transportErr = 0 ∧ pluginBodyCap s.maxUpstreamBody < up.body.length)

/-- The body of the answer is that of an upstream. -/
def ProxyPasses : Prop :=
  ProxyAdmits s w h ∧ ProxyTakes now s w ∧ ProxySends now alloc s w h p ∧ env.allocUpstream ∧
    ∃ up ∈ proxyUpstream env now alloc s w h p, up.transportErr = 0 ∧ up.body ≠ [] ∧
      up.body.length ≤ pluginBodyCap s.maxUpstreamBody

/-- **The calls that come to a miscounted text**: another route (`NOT_FOUND`), a body without a model
(`BAD_BODY`), no key (`NO_API_KEY`), no memory for the upstream's body (`NOMEM`), an upstream that fails
(`UPSTREAM_CONNECT`, `UPSTREAM_TOO_LARGE`). -/
def ProxyMiscounts : Prop :=
  ProxyAdmits s w h ∧
    (¬routeAllowed s.method s.path ∨ ¬bodyLooksOk (bodyBytes s) s.method ∨
      ProxyTakes now s w ∧
        (w.mem.apiKey = [] ∨
          ProxySends now alloc s w h p ∧
            (¬env.allocUpstream ∨
              ∃ up ∈ proxyUpstream env now alloc s w h p, UpstreamMiscounts s up)))

end Proxy

section Call

variable {env : ServeEnv η P OpenaiData} {now : ℤ} {alloc : Bool} {s : EdgeHttp1Serve η}
  {w : ServeWorld P OpenaiData} {h : EdgePluginHost P} {p : P}

/-- What `on_http` leaves. -/
def proxyRun (now : ℤ) (alloc : Bool) (s : EdgeHttp1Serve η) (w : ServeWorld P OpenaiData)
    (h : EdgePluginHost P) (p : P) : EdgePluginHost P × PluginResult OpenaiData :=
  (openaiOnHttp now alloc (pluginReq s) (pluginRes s) w.mem).run apiAnswer (proxyHost s w h p)

/-- A proxy that asks the host for nothing. -/
theorem proxyRun_of_ret {r : PluginResult OpenaiData}
    (hret : openaiOnHttp now alloc (pluginReq s) (pluginRes s) w.mem = .ret r) :
    (proxyRun now alloc s w h p).2 = r := by
  rw [proxyRun, hret]
  rfl

theorem hostOver_pending (w : ServeWorld P OpenaiData) (h : EdgePluginHost P) :
    (hostOver w h).pending = h.pending := by
  unfold hostOver
  split <;> rfl

theorem dispatch_proxy (henv : RunsProxy env now alloc)
    (hfree : edgePendingFindInbound h.pending s.inboundSlot = none) :
    edgePluginHostDispatchHttp env.vtbl (hostOver w h) w.mem (some p) (pluginReq s) (pluginRes s)
      = afterOnHttp (leaveOnHttp (proxyRun now alloc s w h p).1 s.inboundSlot)
          (proxyRun now alloc s w h p).2 s.inboundSlot := by
  have hhandler : httpHandler env.vtbl (some p) = some (p, openaiOnHttp now alloc) := by
    rw [henv]
    rfl
  have hfree' : edgePendingFindInbound (hostOver w h).pending (pluginReq s).inboundSlot = none := by
    rw [hostOver_pending]
    exact hfree
  exact dispatch_ran hhandler hfree'

/-- A proxy that gives up. -/
theorem runPlugin_of_err (henv : RunsProxy env now alloc)
    (hfree : edgePendingFindInbound h.pending s.inboundSlot = none)
    (hstatus : (proxyRun now alloc s w h p).2.status = EDGE_PLUGIN_ERR)
    (hres : (proxyRun now alloc s w h p).2.res.status ≠ 0) :
    (runPlugin env s w h p).res = (proxyRun now alloc s w h p).2.res := by
  have hafter : afterOnHttp (leaveOnHttp (proxyRun now alloc s w h p).1 s.inboundSlot)
      (proxyRun now alloc s w h p).2 s.inboundSlot
      = ⟨leaveOnHttp (proxyRun now alloc s w h p).1 s.inboundSlot, (proxyRun now alloc s w h p).2.mem,
          (proxyRun now alloc s w h p).2.res, EDGE_PLUGIN_ERR⟩ := by
    rw [afterOnHttp, hstatus, if_neg (by decide), if_neg (by decide), if_neg hres]
  rw [runPlugin_eq, dispatch_proxy henv hfree, hafter, finishPlugin,
    if_neg (show ¬EDGE_PLUGIN_ERR = EDGE_PLUGIN_PENDING by decide), withStatus_of_ne hres]

/-- The response for a connection with a call that is pending already. -/
def nestedRes (s : EdgeHttp1Serve η) (d : OpenaiData) : EdgeHttpRes :=
  (refuseWith d { pluginRes s with reason := bytes "Internal Server Error" } 500
    "\x7b\"error\":\"NESTED_PENDING\"\x7d" 26).res

theorem refuses_nestedRes (s : EdgeHttp1Serve η) (d : OpenaiData) :
    Refuses (nestedRes s d) 500 (bytes "Internal Server Error") (bytes "NESTED_PENDING") 26 :=
  refuses_refuseWith rfl rfl (le_pluginBodyCap s.maxUpstreamBody) (by decide) (by decide) (by decide)

theorem runPlugin_nested (henv : RunsProxy env now alloc)
    (hbusy : edgePendingFindInbound h.pending s.inboundSlot ≠ none) :
    (runPlugin env s w h p).res = nestedRes s w.mem := by
  have hfound : (edgePendingFindInbound (hostOver w h).pending (pluginReq s).inboundSlot).isSome := by
    rw [hostOver_pending]
    exact Option.isSome_iff_ne_none.mpr hbusy
  have hdispatch : edgePluginHostDispatchHttp env.vtbl (hostOver w h) w.mem (some p) (pluginReq s)
      (pluginRes s) = ⟨hostOver w h, w.mem, nestedRes s w.mem, EDGE_PLUGIN_ERR⟩ := by
    unfold edgePluginHostDispatchHttp
    rw [henv]
    exact (if_neg (not_not.mpr rfl)).trans (if_pos hfound)
  have hstatus : (nestedRes s w.mem).status ≠ 0 := by
    rw [(refuses_nestedRes s w.mem).status]
    decide
  rw [runPlugin_eq, hdispatch, finishPlugin,
    if_neg (show ¬EDGE_PLUGIN_ERR = EDGE_PLUGIN_PENDING by decide), withStatus_of_ne hstatus]

theorem rateLimitOk_apiKey (now : ℤ) (d : OpenaiData) : (rateLimitOk now d).1.apiKey = d.apiKey := by
  unfold rateLimitOk
  dsimp only
  split_ifs <;> rfl

/-- The proxy's checks of an admitted request, in its own words. -/
theorem onHttp_of_admits (now : ℤ) (alloc : Bool) (hadmits : ProxyAdmits s w h) :
    openaiOnHttp now alloc (pluginReq s) (pluginRes s) w.mem
      = if !routeAllowed s.method s.path then
          .ret (refuseWith w.mem (pluginRes s) 404 "\x7b\"error\":\"NOT_FOUND\"\x7d" 20)
        else if !bodyLooksOk (bodyBytes s) s.method then
          .ret (refuseWith w.mem (pluginRes s) 400 "\x7b\"error\":\"BAD_BODY\"\x7d" 19)
        else if !(rateLimitOk now w.mem).2 then
          .ret (refuseWith (rateLimitOk now w.mem).1
            { pluginRes s with reason := bytes "Too Many Requests" } 429
            "\x7b\"error\":\"RATE_LIMITED\"\x7d" 24)
        else if (rateLimitOk now w.mem).1.Busy then
          .ret (refuseWith (rateLimitOk now w.mem).1 (pluginRes s) 429
            "\x7b\"error\":\"PENDING_FULL\"\x7d" 24)
        else if w.mem.apiKey = [] then
          .ret (refuseWith (rateLimitOk now w.mem).1 (pluginRes s) 500
            "\x7b\"error\":\"NO_API_KEY\"\x7d" 21)
        else openaiAsk alloc (pluginReq s) (pluginRes s) (rateLimitOk now w.mem).1 := by
  have hprincipal : principalAllowed (pluginReq s).principal = true := hadmits.principal
  rw [openaiOnHttp, if_neg (by simp [hadmits.enabled]), if_neg (by simp [hprincipal])]
  dsimp only
  rw [rateLimitOk_apiKey]
  rfl

/-- The call of the host API. -/
def proxyCall (now : ℤ) (alloc : Bool) (s : EdgeHttp1Serve η) (w : ServeWorld P OpenaiData) : ApiCall :=
  .httpClientRequest (some (proxyAsks now s w)) true alloc

theorem proxyRun_of_key (hadmits : ProxyAdmits s w h) (htakes : ProxyTakes now s w)
    (hkey : w.mem.apiKey ≠ []) :
    proxyRun now alloc s w h p
      = ((apiAnswer (proxyHost s w h p) (proxyCall now alloc s w)).1,
          openaiReplied (pluginRes s) (rateLimitOk now w.mem).1
            (apiAnswer (proxyHost s w h p) (proxyCall now alloc s w)).2) := by
  have hon : openaiOnHttp now alloc (pluginReq s) (pluginRes s) w.mem
      = openaiAsk alloc (pluginReq s) (pluginRes s) (rateLimitOk now w.mem).1 := by
    rw [onHttp_of_admits now alloc hadmits, if_neg (by simp [htakes.route]), if_neg (by simp [htakes.body]),
      if_neg (by simp [htakes.rate]), if_neg htakes.idle, if_neg hkey]
  rw [proxyRun, hon]
  rfl

theorem accepted_of_sends (hsends : ProxySends now alloc s w h p) :
    ∃ id, (apiAnswer (proxyHost s w h p) (proxyCall now alloc s w)).2 = .accepted id :=
  (apiAnswer_effect _ (proxyCall now alloc s w)).accepted_iff.mpr hsends.2

/-- The dispatch of a request that is sent. -/
theorem dispatch_sent (henv : RunsProxy env now alloc) (hadmits : ProxyAdmits s w h)
    (htakes : ProxyTakes now s w) (hsends : ProxySends now alloc s w h p) :
    ∃ d, edgePluginHostDispatchHttp env.vtbl (hostOver w h) w.mem (some p) (pluginReq s) (pluginRes s)
      = ⟨leaveOnHttp (apiAnswer (proxyHost s w h p) (proxyCall now alloc s w)).1 s.inboundSlot, d,
          pluginRes s, EDGE_PLUGIN_PENDING⟩ := by
  obtain ⟨id, hid⟩ := accepted_of_sends hsends
  have hrun : proxyRun now alloc s w h p = _ := proxyRun_of_key hadmits htakes hsends.1
  have hstarted := (accepted_stores hid).2.2.2
  rw [hid] at hrun
  rw [dispatch_proxy henv hadmits.free, hrun]
  refine ⟨_, (if_pos rfl).trans (if_neg ?_)⟩
  rw [show (leaveOnHttp (apiAnswer (proxyHost s w h p) (proxyCall now alloc s w)).1
    s.inboundSlot).clientReqStarted = true from hstarted]
  decide

/-- **What becomes of a request that is sent.** -/
theorem runPlugin_sent (henv : RunsProxy env now alloc) (hadmits : ProxyAdmits s w h)
    (htakes : ProxyTakes now s w) (hsends : ProxySends now alloc s w h p)
    (halloc : env.allocUpstream) :
    ∃ up ∈ proxyUpstream env now alloc s w h p, ∃ d,
      ((openaiOnHttpComplete up (pluginRes s) d).status = EDGE_PLUGIN_ERR →
        (openaiOnHttpComplete up (pluginRes s) d).res.status ≠ 0 →
        (runPlugin env s w h p).res = (openaiOnHttpComplete up (pluginRes s) d).res) ∧
      ((openaiOnHttpComplete up (pluginRes s) d).status = EDGE_PLUGIN_OK →
        ∃ status, (runPlugin env s w h p).res
          = { (openaiOnHttpComplete up (pluginRes s) d).res with status }) := by
  obtain ⟨id, hid⟩ := accepted_of_sends hsends
  obtain ⟨d, hdispatch⟩ := dispatch_sent (p := p) henv hadmits htakes hsends
  obtain ⟨hstored, hcopied, hlast, -⟩ := accepted_stores hid
  obtain ⟨hid0, i, e, hfound, hplugin⟩ := accepted_pending hid
  obtain ⟨creq, hcreq⟩ := lastClientReq_storeLastReq hstored
  -- The host that leaves `on_http`: it has the request, its id, and an entry for that id.
  generalize hH : leaveOnHttp (apiAnswer (proxyHost s w h p) (proxyCall now alloc s w)).1
    s.inboundSlot = H at hdispatch
  have hreq : edgePluginHostLastClientReq H = some creq := by
    rw [← hH]
    exact hcopied.trans hcreq
  have hlastId : H.lastOutboundId = id := by
    rw [← hH]
    exact hlast
  have hpending : edgePendingFindOutbound H.pending id = some (i, e) := by
    rw [← hH]
    exact hfound
  have hfinish : finishPlugin env s ⟨H, d, pluginRes s, EDGE_PLUGIN_PENDING⟩
      = edgePluginHostCompleteOutbound (fun _ => some (openaiVtbl now alloc))
          (H.note (.executed H.lastOutboundId)) d
          (pendingUpstream env.net H creq s.allowBlockingDns s.maxUpstreamBody) (pluginRes s) := by
    rw [finishPlugin, if_pos rfl, henv]
    dsimp only
    rw [edgePluginHostFinishPendingSync, hreq]
    dsimp only
    rw [if_neg (by rw [hlastId]; exact hid0), if_neg (by simp [halloc])]
    rfl
  have hupId : (pendingUpstream env.net H creq s.allowBlockingDns s.maxUpstreamBody).outboundId = id :=
    hlastId
  have hnoted : edgePendingFindOutbound (H.note (.executed H.lastOutboundId)).pending id = some (i, e) :=
    hpending
  obtain ⟨herr, hok⟩ := complete_proxy now alloc (hupId ▸ hid0) (hupId ▸ hnoted) hplugin d
    (pluginRes s)
  refine ⟨executedUpstream env.net creq s.allowBlockingDns s.maxUpstreamBody, ?_, d,
    fun hstatus hres => ?_, fun hstatus => ?_⟩
  · rw [proxyUpstream, hcreq]
    rfl
  · have hres' := herr hstatus hres
    rw [runPlugin_eq, hdispatch, hfinish, withStatus_of_ne (by rw [hres']; exact hres)]
    exact hres'
  · have hres' := hok hstatus
    obtain ⟨status, hstatus'⟩ := withStatus_res (finishPlugin env s
      ⟨H, d, pluginRes s, EDGE_PLUGIN_PENDING⟩)
    rw [hfinish] at hstatus'
    rw [runPlugin_eq, hdispatch, hfinish]
    exact ⟨status, hstatus'.trans (congrArg (fun res : EdgeHttpRes => { res with status }) hres')⟩

/-- A request that is sent, without memory for the answer. -/
theorem runPlugin_nomem (henv : RunsProxy env now alloc) (hadmits : ProxyAdmits s w h)
    (htakes : ProxyTakes now s w) (hsends : ProxySends now alloc s w h p)
    (halloc : ¬env.allocUpstream) :
    Refuses (runPlugin env s w h p).res 500 (bytes "OK") (bytes "NOMEM") 16 := by
  obtain ⟨id, hid⟩ := accepted_of_sends hsends
  obtain ⟨d, hdispatch⟩ := dispatch_sent (p := p) henv hadmits htakes hsends
  obtain ⟨hstored, hcopied, hlast, -⟩ := accepted_stores hid
  obtain ⟨creq, hcreq⟩ := lastClientReq_storeLastReq hstored
  have hrefuses : Refuses (refuseWith d (pluginRes s) 500 "\x7b\"error\":\"NOMEM\"\x7d" 16).res 500
      (bytes "OK") (bytes "NOMEM") 16 :=
    refuses_refuseWith rfl rfl (le_pluginBodyCap s.maxUpstreamBody) (by decide) (by decide) (by decide)
  have hfinish : (finishPlugin env s
      ⟨leaveOnHttp (apiAnswer (proxyHost s w h p) (proxyCall now alloc s w)).1 s.inboundSlot, d,
        pluginRes s, EDGE_PLUGIN_PENDING⟩).res
      = (refuseWith d (pluginRes s) 500 "\x7b\"error\":\"NOMEM\"\x7d" 16).res := by
    have hreq : edgePluginHostLastClientReq
        (leaveOnHttp (apiAnswer (proxyHost s w h p) (proxyCall now alloc s w)).1 s.inboundSlot)
          = some creq :=
      hcopied.trans hcreq
    rw [finishPlugin, if_pos rfl]
    dsimp only
    rw [edgePluginHostFinishPendingSync, hreq]
    dsimp only
    have hne : (leaveOnHttp (apiAnswer (proxyHost s w h p) (proxyCall now alloc s w)).1
        s.inboundSlot).lastOutboundId ≠ 0 := fun h0 => (accepted_pending hid).1 (hlast.symm.trans h0)
    rw [if_neg hne, if_pos (by simpa using halloc)]
    rfl
  rw [runPlugin_eq, hdispatch, withStatus_of_ne (by rw [hfinish, hrefuses.status]; decide), hfinish]
  exact hrefuses

/-! ## Every error -/

variable {s₀ : EdgeHttp1Serve η} {w₀ : ServeWorld P OpenaiData} {outCap : ℕ}

/-- A refusal as the proxy writes it: the text of an error, counted whole or one byte short. -/
structure WrittenError (status : ℤ) (reason name : Bytes) (text : String) (len : ℕ) : Prop where
  text_eq : bytes text = errorBody name
  short : ShortError status reason name
  lo : name.length + 11 ≤ len
  hi : len ≤ name.length + 12

instance (status : ℤ) (reason name : Bytes) (text : String) (len : ℕ) :
    Decidable (WrittenError status reason name text len) :=
  decidable_of_iff (bytes text = errorBody name ∧ ShortError status reason name ∧
      name.length + 11 ≤ len ∧ len ≤ name.length + 12)
    ⟨fun ⟨h₁, h₂, h₃, h₄⟩ => ⟨h₁, h₂, h₃, h₄⟩, fun ⟨h₁, h₂, h₃, h₄⟩ => ⟨h₁, h₂, h₃, h₄⟩⟩

/-- A refusal of the proxy, with a reason or without. -/
theorem refuses_pluginRes (s : EdgeHttp1Serve η) (d : OpenaiData) (reason : Bytes) (status : ℤ)
    {text : String} {name : Bytes} {len : ℕ}
    (hwritten : WrittenError status (if reason = [] then bytes "OK" else reason) name text len) :
    Refuses (refuseWith d { pluginRes s with reason } status text len).res status
      (if reason = [] then bytes "OK" else reason) name len := by
  have hname := hwritten.short.length_name
  have hhi := hwritten.hi
  have hlen : (errorBody name).length = name.length + 12 := by
    have hbody := congrArg List.length (errorBody_eq name [])
    rw [List.append_nil, length_errorText] at hbody
    exact hbody
  exact refuses_refuseWith rfl rfl (le_pluginBodyCap s.maxUpstreamBody) (by omega) hwritten.text_eq
    (by omega)

/-- A refusal of `on_http` is what is answered. -/
theorem refused_wellFormed_iff (name : Bytes) (hcap : 1024 ≤ outCap) (henv : RunsProxy env now alloc)
    (hfree : edgePendingFindInbound h.pending s.inboundSlot = none) {d : OpenaiData} {reason : Bytes}
    {status : ℤ} {text : String} {len : ℕ}
    (hon : (proxyRun now alloc s w h p).2
      = refuseWith d { pluginRes s with reason } status text len)
    (hwritten : WrittenError status (if reason = [] then bytes "OK" else reason) name text len) :
    ErrorsWellFormed (answerPlugin s₀ w₀ outCap (runPlugin env s w h p).res) ↔
      len = name.length + 12 := by
  have hrefuses := refuses_pluginRes s d reason status hwritten
  have hhi := hwritten.hi
  have hstatus : status ≠ 0 := by
    have := hwritten.short.status_le
    omega
  rw [runPlugin_of_err henv hfree (by rw [hon]; rfl) (by rw [hon, hrefuses.status]; exact hstatus), hon]
  exact hrefuses.wellFormed_iff hwritten.short hwritten.lo (by omega) s₀ w₀ hcap

/-- The proxy answers a request that it does not admit with a whole text. -/
theorem wellFormed_of_not_admits (hcap : 1024 ≤ outCap) (henv : RunsProxy env now alloc)
    (hno : ¬ProxyAdmits s w h) :
    ErrorsWellFormed (answerPlugin s₀ w₀ outCap (runPlugin env s w h p).res) := by
  by_cases hfree : edgePendingFindInbound h.pending s.inboundSlot = none
  · by_cases henabled : w.mem.cfg.enabled
    · have hprincipal : principalAllowed (pluginReq s).principal = false :=
        Bool.eq_false_iff.mpr fun hp => hno ⟨hfree, henabled, hp⟩
      have hon : (proxyRun now alloc s w h p).2 = refuseWith w.mem { pluginRes s with reason := [] } 401
          "\x7b\"error\":\"UNAUTHORIZED\"\x7d" 24 := by
        rw [proxyRun, openaiOnHttp, if_neg (by simp [henabled]), if_pos (by simp [hprincipal])]
        rfl
      exact (refused_wellFormed_iff (bytes "UNAUTHORIZED") hcap henv hfree hon
        (by decide)).mpr (by decide)
    · have hon : (proxyRun now alloc s w h p).2 = refuseWith w.mem { pluginRes s with reason := [] } 503
          "\x7b\"error\":\"OPENAI_DISABLED\"\x7d" 27 := by
        rw [proxyRun, openaiOnHttp, if_pos (by simp [henabled])]
        rfl
      exact (refused_wellFormed_iff (bytes "OPENAI_DISABLED") hcap henv hfree hon
        (by decide)).mpr (by decide)
  · rw [runPlugin_nested henv hfree]
    exact ((refuses_nestedRes s w.mem).wellFormed_iff
      (by decide) (by decide) (by decide)
      s₀ w₀ hcap).mpr (by decide)

theorem wellFormed_checks_iff (hcap : 1024 ≤ outCap) (henv : RunsProxy env now alloc)
    (hadmits : ProxyAdmits s w h) (hno : ¬(ProxyTakes now s w ∧ w.mem.apiKey ≠ [])) :
    ErrorsWellFormed (answerPlugin s₀ w₀ outCap (runPlugin env s w h p).res) ↔
      routeAllowed s.method s.path ∧ bodyLooksOk (bodyBytes s) s.method ∧ ¬ProxyTakes now s w := by
  -- Each check of the plugin in turn: what it refuses with, and whether that text is counted right.
  have hchecks := onHttp_of_admits now alloc hadmits
  by_cases hroute : routeAllowed s.method s.path
  · rw [if_neg (by simp [hroute])] at hchecks
    by_cases hbody : bodyLooksOk (bodyBytes s) s.method
    · rw [if_neg (by simp [hbody])] at hchecks
      by_cases hrate : (rateLimitOk now w.mem).2
      · rw [if_neg (by simp [hrate])] at hchecks
        by_cases hbusy : (rateLimitOk now w.mem).1.Busy
        · rw [if_pos hbusy] at hchecks
          have hon : (proxyRun now alloc s w h p).2 = refuseWith (rateLimitOk now w.mem).1
              { pluginRes s with reason := [] } 429 "\x7b\"error\":\"PENDING_FULL\"\x7d" 24 :=
            proxyRun_of_ret hchecks
          refine iff_of_true ?_ ⟨hroute, hbody, fun htakes => htakes.idle hbusy⟩
          exact (refused_wellFormed_iff (bytes "PENDING_FULL") hcap henv hadmits.free hon
            (by decide)).mpr (by decide)
        · have htakes : ProxyTakes now s w := ⟨hroute, hbody, hrate, hbusy⟩
          have hkey : w.mem.apiKey = [] := not_not.mp fun hkey => hno ⟨htakes, hkey⟩
          rw [if_neg hbusy, if_pos hkey] at hchecks
          have hon : (proxyRun now alloc s w h p).2 = refuseWith (rateLimitOk now w.mem).1
              { pluginRes s with reason := [] } 500 "\x7b\"error\":\"NO_API_KEY\"\x7d" 21 :=
            proxyRun_of_ret hchecks
          refine iff_of_false (fun hwell => ?_) fun hall => hall.2.2 htakes
          exact absurd ((refused_wellFormed_iff (bytes "NO_API_KEY") hcap henv hadmits.free hon
            (by decide)).mp hwell) (by decide)
      · rw [if_pos (by simp [hrate])] at hchecks
        have hon : (proxyRun now alloc s w h p).2 = refuseWith (rateLimitOk now w.mem).1
            { pluginRes s with reason := bytes "Too Many Requests" } 429
            "\x7b\"error\":\"RATE_LIMITED\"\x7d" 24 :=
          proxyRun_of_ret hchecks
        refine iff_of_true ?_ ⟨hroute, hbody, fun htakes => hrate htakes.rate⟩
        exact (refused_wellFormed_iff (bytes "RATE_LIMITED") hcap henv hadmits.free hon
          (by decide)).mpr (by decide)
    · rw [if_pos (by simp [hbody])] at hchecks
      have hon : (proxyRun now alloc s w h p).2 = refuseWith w.mem { pluginRes s with reason := [] } 400
          "\x7b\"error\":\"BAD_BODY\"\x7d" 19 :=
        proxyRun_of_ret hchecks
      refine iff_of_false (fun hwell => ?_) fun hall => hbody hall.2.1
      exact absurd ((refused_wellFormed_iff (bytes "BAD_BODY") hcap henv hadmits.free hon
        (by decide)).mp hwell) (by decide)
  · rw [if_pos (by simp [hroute])] at hchecks
    have hon : (proxyRun now alloc s w h p).2 = refuseWith w.mem { pluginRes s with reason := [] } 404
        "\x7b\"error\":\"NOT_FOUND\"\x7d" 20 :=
      proxyRun_of_ret hchecks
    refine iff_of_false (fun hwell => ?_) fun hall => hroute hall.1
    exact absurd ((refused_wellFormed_iff (bytes "NOT_FOUND") hcap henv hadmits.free hon
      (by decide)).mp hwell) (by decide)

/-! ## The upstream -/

theorem complete_failed {up : EdgeHttpClientResult} (hup : up.transportErr ≠ 0)
    (htimeout : up.transportErr ≠ ETIMEDOUT) (res : EdgeHttpRes) (d : OpenaiData) :
    ∃ d', openaiOnHttpComplete up res d = refuseWith d' { res with reason := bytes "Bad Gateway" } 502
      "\x7b\"error\":\"UPSTREAM_CONNECT\"\x7d" 27 := by
  unfold openaiOnHttpComplete
  dsimp only
  rw [if_pos hup, if_neg htimeout]
  exact ⟨_, rfl⟩

theorem complete_timeout {up : EdgeHttpClientResult} (htimeout : up.transportErr = ETIMEDOUT)
    (res : EdgeHttpRes) (d : OpenaiData) :
    ∃ d', openaiOnHttpComplete up res d
      = refuseWith d' { res with reason := bytes "Gateway Timeout" } 504
          "\x7b\"error\":\"UPSTREAM_TIMEOUT\"\x7d" 28 := by
  unfold openaiOnHttpComplete
  dsimp only
  rw [if_pos (by rw [htimeout]; decide), if_pos htimeout]
  exact ⟨_, rfl⟩

/-- A refusal of `on_http_complete` is what is answered. -/
theorem completed_wellFormed_iff (name : Bytes) (hcap : 1024 ≤ outCap) {up : EdgeHttpClientResult}
    {d d' : OpenaiData} {reason : Bytes} {status : ℤ} {text : String} {len : ℕ}
    (herr : (openaiOnHttpComplete up (pluginRes s) d).status = EDGE_PLUGIN_ERR →
      (openaiOnHttpComplete up (pluginRes s) d).res.status ≠ 0 →
      (runPlugin env s w h p).res = (openaiOnHttpComplete up (pluginRes s) d).res)
    (hon : openaiOnHttpComplete up (pluginRes s) d
      = refuseWith d' { pluginRes s with reason } status text len)
    (hwritten : WrittenError status (if reason = [] then bytes "OK" else reason) name text len) :
    ErrorsWellFormed (answerPlugin s₀ w₀ outCap (runPlugin env s w h p).res) ↔
      len = name.length + 12 := by
  have hrefuses := refuses_pluginRes s d' reason status hwritten
  have hhi := hwritten.hi
  have hstatus : status ≠ 0 := by
    have := hwritten.short.status_le
    omega
  rw [herr (by rw [hon]; rfl) (by rw [hon, hrefuses.status]; exact hstatus), hon]
  exact hrefuses.wellFormed_iff hwritten.short hwritten.lo (by omega) s₀ w₀ hcap

/-- An upstream body that has no room. -/
theorem complete_tooLarge {up : EdgeHttpClientResult} (hup : up.transportErr = 0)
    (hlarge : pluginBodyCap s.maxUpstreamBody < up.body.length) (d : OpenaiData) :
    ∃ d', openaiOnHttpComplete up (pluginRes s) d
      = refuseWith d' { pluginRes s with status := up.status, contentType := jsonType } 502
          "\x7b\"error\":\"UPSTREAM_TOO_LARGE\"\x7d" 29 := by
  have hne : up.body ≠ [] := fun hnil => by
    rw [hnil] at hlarge
    exact absurd hlarge (Nat.not_lt_zero _)
  have hset : edgeHttpResSetBody { pluginRes s with status := up.status, contentType := jsonType }
      up.body up.body.length
      = ({ pluginRes s with status := up.status, contentType := jsonType }, -1) := by
    rw [edgeHttpResSetBody]
    exact if_pos hlarge
  unfold openaiOnHttpComplete
  dsimp only
  rw [if_neg (not_not.mpr hup), if_pos hne, show (bytes "application/json") = jsonType from rfl, hset]
  exact ⟨_, rfl⟩

/-- An upstream without a body. -/
theorem complete_empty {up : EdgeHttpClientResult} (hup : up.transportErr = 0) (hbody : up.body = [])
    (d : OpenaiData) :
    (openaiOnHttpComplete up (pluginRes s) d).status = EDGE_PLUGIN_OK ∧
      (openaiOnHttpComplete up (pluginRes s) d).res.reason = [] ∧
      (openaiOnHttpComplete up (pluginRes s) d).res.contentType = jsonType ∧
      (openaiOnHttpComplete up (pluginRes s) d).res.text = bytes "\x7b\x7d" := by
  have hcap := le_pluginBodyCap s.maxUpstreamBody
  have htext := text_setBody { pluginRes s with status := up.status, contentType := jsonType }
    (bytes "\x7b\x7d") rfl (show 2 ≤ pluginBodyCap s.maxUpstreamBody by omega) (by decide)
  unfold openaiOnHttpComplete
  dsimp only
  rw [if_neg (not_not.mpr hup), if_neg (not_not.mpr hbody)]
  obtain ⟨-, hreason, hctype⟩ := setBody_keeps
    { pluginRes s with status := up.status, contentType := jsonType } (bytes "\x7b\x7d") 2
  exact ⟨rfl, hreason, hctype, htext.trans (by decide)⟩

/-- What is made of an upstream that does not pass. -/
theorem wellFormed_upstream_iff (hcap : 1024 ≤ outCap) {up : EdgeHttpClientResult} {d : OpenaiData}
    (herr : (openaiOnHttpComplete up (pluginRes s) d).status = EDGE_PLUGIN_ERR →
      (openaiOnHttpComplete up (pluginRes s) d).res.status ≠ 0 →
      (runPlugin env s w h p).res = (openaiOnHttpComplete up (pluginRes s) d).res)
    (hok : (openaiOnHttpComplete up (pluginRes s) d).status = EDGE_PLUGIN_OK →
      ∃ status, (runPlugin env s w h p).res
        = { (openaiOnHttpComplete up (pluginRes s) d).res with status })
    (hpass : ¬(up.transportErr = 0 ∧ up.body ≠ [] ∧ up.body.length ≤ pluginBodyCap s.maxUpstreamBody)) :
    ErrorsWellFormed (answerPlugin s₀ w₀ outCap (runPlugin env s w h p).res) ↔
      ¬UpstreamMiscounts s up := by
  by_cases hup : up.transportErr = 0
  · by_cases hlarge : pluginBodyCap s.maxUpstreamBody < up.body.length
    · obtain ⟨d', hon⟩ := complete_tooLarge hup hlarge d
      have hrefuses : Refuses (refuseWith d'
          { pluginRes s with status := up.status, contentType := jsonType } 502
          "\x7b\"error\":\"UPSTREAM_TOO_LARGE\"\x7d" 29).res 502 (bytes "OK")
          (bytes "UPSTREAM_TOO_LARGE") 29 :=
        refuses_refuseWith rfl rfl (le_pluginBodyCap s.maxUpstreamBody) (by decide) (by decide)
          (by decide)
      refine iff_of_false (fun hwell => ?_) fun hno => hno (.inr ⟨hup, hlarge⟩)
      rw [herr (by rw [hon]; rfl) (by rw [hon, hrefuses.status]; decide), hon] at hwell
      exact absurd ((hrefuses.wellFormed_iff (by decide) (by decide) (by decide) s₀ w₀ hcap).mp hwell)
        (by decide)
    · have hbody : up.body = [] := not_not.mp fun hne => hpass ⟨hup, hne, Nat.not_lt.mp hlarge⟩
      obtain ⟨hstatus, hreason, hctype, htext⟩ := complete_empty (s := s) hup hbody d
      obtain ⟨status, hres⟩ := hok hstatus
      refine iff_of_true ?_ ?_
      · have hreason' := (congrArg EdgeHttpRes.reason hres).trans hreason
        have hctype' := (congrArg EdgeHttpRes.contentType hres).trans hctype
        have htext' := (congrArg EdgeHttpRes.text hres).trans htext
        rw [answerPlugin, hreason', hctype', htext', if_pos rfl, if_neg (show jsonType ≠ [] by decide)]
        exact errorsWellFormed_json _ _ (by omega) (by decide) (by decide)
      · rintro (⟨hne, -⟩ | ⟨-, hlt⟩)
        · exact hne hup
        · exact hlarge hlt
  · by_cases htimeout : up.transportErr = ETIMEDOUT
    · obtain ⟨d', hon⟩ := complete_timeout htimeout (pluginRes s) d
      refine iff_of_true ?_ ?_
      · exact (completed_wellFormed_iff (bytes "UPSTREAM_TIMEOUT") hcap herr hon
        (by decide)).mpr (by decide)
      · rintro (⟨-, hne⟩ | ⟨h0, -⟩)
        · exact hne htimeout
        · exact hup h0
    · obtain ⟨d', hon⟩ := complete_failed hup htimeout (pluginRes s) d
      refine iff_of_false (fun hwell => ?_) fun hno => hno (.inl ⟨hup, htimeout⟩)
      exact absurd ((completed_wellFormed_iff (bytes "UPSTREAM_CONNECT") hcap herr hon
        (by decide)).mp hwell) (by decide)

/-- A request with a key that passes the checks. -/
theorem wellFormed_keyed_iff (hcap : 1024 ≤ outCap) (henv : RunsProxy env now alloc)
    (hadmits : ProxyAdmits s w h) (htakes : ProxyTakes now s w) (hkey : w.mem.apiKey ≠ [])
    (hpass : ¬ProxyPasses env now alloc s w h p) :
    ErrorsWellFormed (answerPlugin s₀ w₀ outCap (runPlugin env s w h p).res) ↔
      ¬(ProxySends now alloc s w h p ∧
        (¬env.allocUpstream ∨ ∃ up ∈ proxyUpstream env now alloc s w h p, UpstreamMiscounts s up)) := by
  by_cases hsends : ProxySends now alloc s w h p
  · by_cases halloc : env.allocUpstream
    · obtain ⟨up, hup, d, herr, hok⟩ := runPlugin_sent (p := p) henv hadmits htakes hsends halloc
      -- The network is a function of the request, so there is one outcome.
      have hone : (∃ up ∈ proxyUpstream env now alloc s w h p, UpstreamMiscounts s up) ↔
          UpstreamMiscounts s up := by
        constructor
        · rintro ⟨up', hup', hmis⟩
          obtain rfl := Option.some.inj (hup'.symm.trans hup)
          exact hmis
        · exact fun hmis => ⟨up, hup, hmis⟩
      have hnot : ¬(up.transportErr = 0 ∧ up.body ≠ [] ∧
          up.body.length ≤ pluginBodyCap s.maxUpstreamBody) := fun hup' =>
        hpass ⟨hadmits, htakes, hsends, halloc, up, hup, hup'⟩
      rw [wellFormed_upstream_iff hcap herr hok hnot, hone]
      exact not_congr ⟨fun hmis => ⟨hsends, .inr hmis⟩, fun hall => hall.2.resolve_left (not_not.mpr halloc)⟩
    · refine iff_of_false (fun hwell => ?_) fun hno => hno ⟨hsends, .inl halloc⟩
      exact absurd (((runPlugin_nomem henv hadmits htakes hsends halloc).wellFormed_iff (by decide)
        (by decide) (by decide) s₀ w₀ hcap).mp hwell) (by decide)
  · refine iff_of_true ?_ fun hall => hsends hall.1
    -- A host that does not accept says so, and the proxy takes that for a full table.
    have hreply : (apiAnswer (proxyHost s w h p) (proxyCall now alloc s w)).2 = .status (-1) :=
      (apiHttpClientRequest_reply (proxyHost s w h p) (some (proxyAsks now s w)) true alloc).resolve_right
        fun hid => hsends ⟨hkey, (apiAnswer_effect _ (proxyCall now alloc s w)).accepted_iff.mp hid⟩
    have hon : (proxyRun now alloc s w h p).2 = refuseWith (rateLimitOk now w.mem).1
        { pluginRes s with reason := [] } 429 "\x7b\"error\":\"PENDING_FULL\"\x7d" 24 := by
      rw [proxyRun_of_key hadmits htakes hkey, hreply]
      rfl
    exact (refused_wellFormed_iff (bytes "PENDING_FULL") hcap henv hadmits.free hon
      (by decide)).mpr (by decide)

/-- **The proxy's errors are well formed exactly where it comes to no miscounted text.** -/
theorem answerPlugin_proxy_iff (hcap : 1024 ≤ outCap) (henv : RunsProxy env now alloc)
    (hpass : ¬ProxyPasses env now alloc s w h p) :
    ErrorsWellFormed (answerPlugin s₀ w₀ outCap (runPlugin env s w h p).res) ↔
      ¬ProxyMiscounts env now alloc s w h p := by
  by_cases hadmits : ProxyAdmits s w h
  · by_cases hkeyed : ProxyTakes now s w ∧ w.mem.apiKey ≠ []
    · obtain ⟨htakes, hkey⟩ := hkeyed
      rw [wellFormed_keyed_iff hcap henv hadmits htakes hkey hpass]
      refine not_congr ⟨fun hall => ⟨hadmits, .inr (.inr ⟨htakes, .inr hall⟩)⟩, ?_⟩
      rintro ⟨-, hroute | hbody | ⟨-, hnil | hall⟩⟩
      · exact absurd htakes.route hroute
      · exact absurd htakes.body hbody
      · exact absurd hnil hkey
      · exact hall
    · rw [wellFormed_checks_iff hcap henv hadmits hkeyed]
      constructor
      · rintro ⟨hroute, hbody, hno⟩ ⟨-, hroute' | hbody' | ⟨htakes, -⟩⟩
        · exact hroute' hroute
        · exact hbody' hbody
        · exact hno htakes
      · intro hno
        refine ⟨not_not.mp fun hr => hno ⟨hadmits, .inl hr⟩,
          not_not.mp fun hb => hno ⟨hadmits, .inr (.inl hb)⟩, fun htakes => ?_⟩
        have hnil : w.mem.apiKey = [] := not_not.mp fun hkey => hkeyed ⟨htakes, hkey⟩
        exact hno ⟨hadmits, .inr (.inr ⟨htakes, .inl hnil⟩)⟩
  · exact iff_of_true (wellFormed_of_not_admits hcap henv hadmits) fun hmis => hadmits hmis.1

end Call

end Edgehost
