import Edgehost.Host.PluginDispatch

/-!
# The OpenAI proxy plugin (`openai_proxy.c`)

The plugin forwards three `/v1` routes to an upstream: `on_http` asks the host for one upstream
request and stays pending, `on_http_complete` passes the answer on. It counts the requests it waits
for in `in_flight` and refuses more than a configured number.

* `openaiOnHttp` and `openaiOnHttpComplete` are the two callbacks; the clock and the host's heap are
  their parameters.
* `openaiOnHttp_counts` says that `on_http` raises `in_flight` by one exactly when the host hands out
  an id.
-/

namespace Edgehost

variable {P ρ : Type*}

def EDGE_OPENAI_URL_MAX : ℕ := 512
def EDGE_OPENAI_KEY_MAX : ℕ := 256

def ETIMEDOUT : ℤ := 110

/-! ## Configuration and memory -/

/-- `edge_openai_proxy_config_t`, the members that the plugin reads. -/
structure EdgeOpenaiProxyConfig where
  enabled : Bool
  upstream : Bytes
  upstreamAddr : Bytes
  upstreamHost : Bytes
  apiKeyEnv : Bytes
  timeoutMs : UInt32
  rateLimitRpm : UInt32
  maxConcurrentPerPrincipal : UInt32
  deriving DecidableEq

/-- `edge_openai_proxy_config_defaults`. -/
def edgeOpenaiProxyConfigDefaults : EdgeOpenaiProxyConfig where
  enabled := false
  upstream := bytes "https://api.openai.com"
  upstreamAddr := []
  upstreamHost := []
  apiKeyEnv := bytes "OPENAI_API_KEY"
  timeoutMs := 60000
  rateLimitRpm := 60
  maxConcurrentPerPrincipal := 4

/-- `openai_data_t`. Neither counter ever falls below zero. -/
structure OpenaiData where
  cfg : EdgeOpenaiProxyConfig
  apiKey : Bytes
  hitN : ℕ
  windowStart : ℤ
  inFlight : ℕ
  deriving DecidableEq

/-- The memory of a plugin that has served nothing yet. -/
def openaiData (cfg : EdgeOpenaiProxyConfig) (apiKey : Bytes) : OpenaiData where
  cfg := cfg
  apiKey := apiKey
  hitN := 0
  windowStart := 0
  inFlight := 0

/-- `edge_openai_proxy_init_plugin`, when its allocation succeeds: the memory it leaves. -/
def edgeOpenaiProxyInitPlugin (getenv : Bytes → Option Bytes) (cfg : Option EdgeOpenaiProxyConfig) :
    Option OpenaiData :=
  let cfg := cfg.getD edgeOpenaiProxyConfigDefaults
  let envName := if cfg.apiKeyEnv ≠ [] then cfg.apiKeyEnv else bytes "OPENAI_API_KEY"
  let key := (getenv envName).getD []
  if cfg.enabled then
    if key = [] then none
    else if key.length ≥ EDGE_OPENAI_KEY_MAX then none
    else some (openaiData cfg (snprintf EDGE_OPENAI_KEY_MAX key))
  else if key ≠ [] ∧ key.length < EDGE_OPENAI_KEY_MAX then
    some (openaiData cfg (snprintf EDGE_OPENAI_KEY_MAX key))
  else some (openaiData cfg [])

/-! ## The checks of a request -/

/-- A path is a route, or the route with a query string. -/
def pathIs (route path : Bytes) : Bool :=
  path = route || (route ++ bytes "?").isPrefixOf path

/-- `route_allowed`. -/
def routeAllowed (method path : Bytes) : Bool :=
  (method = bytes "POST" &&
    (pathIs (bytes "/v1/chat/completions") path || pathIs (bytes "/v1/responses") path)) ||
  (method = bytes "GET" && pathIs (bytes "/v1/models") path)

/-- The white space that `body_looks_ok` skips. -/
def isBodySpace (c : UInt8) : Bool :=
  c = charByte ' ' || c = charByte '\n' || c = charByte '\r' || c = charByte '\t'

/-- The text that a body has to mention. -/
def modelKey : Bytes := bytes "\"model\""

/-- `body_looks_ok`. -/
def bodyLooksOk (body method : Bytes) : Bool :=
  if method = bytes "GET" then true
  else if body.length < 2 then false
  else if (body.dropWhile isBodySpace).head? ≠ some (charByte '\x7b') then false
  else if body.length < 96 then (strstr (cstr body) modelKey).isSome
  -- The scan stops one place before the last one where the key would fit.
  else (strstr body.dropLast modelKey).isSome

/-- `rate_limit_ok`. -/
def rateLimitOk (now : ℤ) (d : OpenaiData) : OpenaiData × Bool :=
  if d.cfg.rateLimitRpm = 0 then (d, true)
  else
    let d :=
      if d.windowStart = 0 ∨ now - d.windowStart ≥ 60 then { d with windowStart := now, hitN := 0 }
      else d
    if UInt32.ofNat d.hitN ≥ d.cfg.rateLimitRpm then (d, false)
    else ({ d with hitN := d.hitN + 1 }, true)

/-- `principal_allowed`. -/
def principalAllowed : Option EdgePrincipal → Bool
  | none => false
  | some p =>
    p.authenticated &&
      (edgeAuthRoleHas p.roles .employee || edgeAuthRoleHas p.roles .employeeAdmin ||
        edgeAuthRoleHas p.roles .serviceOpenai)

/-- The number of requests in flight has reached its limit. -/
def OpenaiData.Busy (d : OpenaiData) : Prop :=
  d.cfg.maxConcurrentPerPrincipal > 0 ∧ UInt32.ofNat d.inFlight ≥ d.cfg.maxConcurrentPerPrincipal

instance (d : OpenaiData) : Decidable d.Busy := inferInstanceAs (Decidable (_ ∧ _))

/-! ## The callbacks -/

/-- The answer of a plugin that gives up: a status and the first `len` bytes of a body. -/
def refuseWith (d : OpenaiData) (res : EdgeHttpRes) (status : ℤ) (body : String) (len : ℕ) :
    PluginResult OpenaiData :=
  ⟨EDGE_PLUGIN_ERR, (edgeHttpResSetBody { res with status } (bytes body) len).1, d⟩

/-- The URL of an upstream request. -/
def upstreamUrl (upstream path : Bytes) : Bytes :=
  snprintf (EDGE_OPENAI_URL_MAX + 128)
    (if upstream.getLast? = some (charByte '/') then
      upstream ++ if path.head? = some (charByte '/') then path.tail else path
    else upstream ++ path)

/-- The upstream request for an inbound one. -/
def upstreamReq (d : OpenaiData) (req : EdgeHttpReq) : EdgeHttpClientReq where
  method := some req.method
  url := some (upstreamUrl d.cfg.upstream req.path)
  host := if d.cfg.upstreamHost ≠ [] then some d.cfg.upstreamHost else none
  addrOverride := if d.cfg.upstreamAddr ≠ [] then some d.cfg.upstreamAddr else none
  hdrNames := [some (bytes "Authorization"), some (bytes "Content-Type")]
  hdrValues :=
    [some (snprintf (EDGE_OPENAI_KEY_MAX + 32) (bytes "Bearer " ++ d.apiKey)),
      some (bytes "application/json")]
  nHeaders := 2
  body := some req.body
  bodyLen := req.body.length
  timeoutMs := d.cfg.timeoutMs
  userTag := req.inboundSlot.toUInt64

/-- The status of an answer of the host API. -/
def ApiReply.code : ApiReply → ℤ
  | .status code => code
  | _ => 0

/-- What `on_http` returns for the host's answer to its request. -/
def openaiReplied (res : EdgeHttpRes) (d : OpenaiData) (reply : ApiReply) :
    PluginResult OpenaiData :=
  if reply.code ≠ 0 then refuseWith d res 429 "\x7b\"error\":\"PENDING_FULL\"\x7d" 24
  else ⟨EDGE_PLUGIN_PENDING, res, { d with inFlight := d.inFlight + 1 }⟩

/-- The last step of `on_http`: ask the host for the upstream request. -/
def openaiAsk (alloc : Bool) (req : EdgeHttpReq) (res : EdgeHttpRes) (d : OpenaiData) :
    Client ApiCall ApiReply (PluginResult OpenaiData) :=
  .ask (.httpClientRequest (some (upstreamReq d req)) true alloc) fun reply =>
    .ret (openaiReplied res d reply)

/-- `openai_on_http` at time `now`; `alloc` says whether the host can grow its buffer. -/
def openaiOnHttp (now : ℤ) (alloc : Bool) (req : EdgeHttpReq) (res : EdgeHttpRes) (d : OpenaiData) :
    Client ApiCall ApiReply (PluginResult OpenaiData) :=
  if !d.cfg.enabled then .ret (refuseWith d res 503 "\x7b\"error\":\"OPENAI_DISABLED\"\x7d" 27)
  else if !principalAllowed req.principal then
    .ret (refuseWith d res 401 "\x7b\"error\":\"UNAUTHORIZED\"\x7d" 24)
  else if !routeAllowed req.method req.path then
    .ret (refuseWith d res 404 "\x7b\"error\":\"NOT_FOUND\"\x7d" 20)
  else if !bodyLooksOk req.body req.method then
    .ret (refuseWith d res 400 "\x7b\"error\":\"BAD_BODY\"\x7d" 19)
  else
    let (d, withinRate) := rateLimitOk now d
    if !withinRate then
      .ret (refuseWith d { res with reason := bytes "Too Many Requests" } 429
        "\x7b\"error\":\"RATE_LIMITED\"\x7d" 24)
    else if d.Busy then .ret (refuseWith d res 429 "\x7b\"error\":\"PENDING_FULL\"\x7d" 24)
    else if d.apiKey = [] then .ret (refuseWith d res 500 "\x7b\"error\":\"NO_API_KEY\"\x7d" 21)
    else openaiAsk alloc req res d

/-- `openai_on_http_complete`. -/
def openaiOnHttpComplete (up : EdgeHttpClientResult) (res : EdgeHttpRes) (d : OpenaiData) :
    PluginResult OpenaiData :=
  let d := if d.inFlight > 0 then { d with inFlight := d.inFlight - 1 } else d
  if up.transportErr ≠ 0 then
    if up.transportErr = ETIMEDOUT then
      refuseWith d { res with reason := bytes "Gateway Timeout" } 504
        "\x7b\"error\":\"UPSTREAM_TIMEOUT\"\x7d" 28
    else
      refuseWith d { res with reason := bytes "Bad Gateway" } 502
        "\x7b\"error\":\"UPSTREAM_CONNECT\"\x7d" 27
  else
    let res := { res with status := up.status, contentType := bytes "application/json" }
    if up.body ≠ [] then
      let (res, rc) := edgeHttpResSetBody res up.body up.body.length
      if rc ≠ 0 then refuseWith d res 502 "\x7b\"error\":\"UPSTREAM_TOO_LARGE\"\x7d" 29
      else ⟨EDGE_PLUGIN_OK, res, d⟩
    else ⟨EDGE_PLUGIN_OK, (edgeHttpResSetBody res (bytes "\x7b\x7d") 2).1, d⟩

/-- `openai_vtbl`. -/
def openaiVtbl (now : ℤ) (alloc : Bool) : EdgePluginVtbl OpenaiData where
  kind := .http
  init := some fun d => .ret (0, d)
  onHttp := some (openaiOnHttp now alloc)
  onHttpComplete := some fun up res d => .ret (openaiOnHttpComplete up res d)

/-! ## What the callbacks count -/

/-- The host answers a request for an upstream call with a failure or with an id. -/
theorem apiHttpClientRequest_reply (h : EdgePluginHost P) (req : Option EdgeHttpClientReq)
    (outId alloc : Bool) :
    (apiHttpClientRequest h req outId alloc).2 = .status (-1) ∨
      ∃ id, (apiHttpClientRequest h req outId alloc).2 = .accepted id := by
  unfold apiHttpClientRequest
  split
  · split_ifs
    · exact Or.inl rfl
    · exact Or.inl rfl
    · exact Or.inl rfl
    · exact Or.inl rfl
    · exact Or.inl rfl
    · simp only
      split_ifs
      · exact Or.inl rfl
      · exact Or.inl rfl
      · exact Or.inr ⟨_, rfl⟩
  · exact Or.inl rfl

/-- The rate limit touches neither the configuration nor the requests in flight. -/
theorem rateLimitOk_inFlight (now : ℤ) (d : OpenaiData) :
    (rateLimitOk now d).1.inFlight = d.inFlight := by
  unfold rateLimitOk
  simp only
  split_ifs <;> rfl

@[simp] theorem acceptedIds_ret (r : ρ) (h : EdgePluginHost P) :
    acceptedIds (.ret r) h = [] := rfl

/-- A request counts once it has an id. -/
theorem openaiReplied_inFlight (res : EdgeHttpRes) (d : OpenaiData) {reply : ApiReply}
    (h : reply = .status (-1) ∨ ∃ id, reply = .accepted id) :
    (openaiReplied res d reply).mem.inFlight = d.inFlight + reply.acceptedId.toList.length := by
  rcases h with rfl | ⟨id, rfl⟩ <;> rfl

private theorem openaiAsk_counts (alloc : Bool) (req : EdgeHttpReq) (res : EdgeHttpRes)
    (d : OpenaiData) (h : EdgePluginHost P) :
    ((openaiAsk alloc req res d).run apiAnswer h).2.mem.inFlight
      = d.inFlight + (acceptedIds (openaiAsk alloc req res d) h).length := by
  rw [openaiAsk, acceptedIds_ask, acceptedIds_ret, List.append_nil]
  exact openaiReplied_inFlight res d (apiHttpClientRequest_reply h _ true alloc)

/-- **`on_http` counts what it waits for**: `in_flight` grows by the number of ids that the host
hands out to it. -/
theorem openaiOnHttp_counts (now : ℤ) (alloc : Bool) (req : EdgeHttpReq) (res : EdgeHttpRes)
    (d : OpenaiData) (h : EdgePluginHost P) :
    ((openaiOnHttp now alloc req res d).run apiAnswer h).2.mem.inFlight
      = d.inFlight + (acceptedIds (openaiOnHttp now alloc req res d) h).length := by
  unfold openaiOnHttp
  split_ifs
  · rfl
  · rfl
  · rfl
  · rfl
  · simp only
    rw [← rateLimitOk_inFlight now d]
    split_ifs
    · rfl
    · rfl
    · rfl
    · exact openaiAsk_counts alloc req res _ h

/-- `on_http_complete` counts one request less. -/
theorem openaiOnHttpComplete_inFlight (up : EdgeHttpClientResult) (res : EdgeHttpRes)
    (d : OpenaiData) : (openaiOnHttpComplete up res d).mem.inFlight = d.inFlight - 1 := by
  have hdec : (if d.inFlight > 0 then { d with inFlight := d.inFlight - 1 } else d).inFlight
      = d.inFlight - 1 := by
    split_ifs with h
    · rfl
    · omega
  rw [← hdec]
  unfold openaiOnHttpComplete
  simp only
  split_ifs <;> rfl

end Edgehost
