import Edgehost.Host.NotifyApply
import Edgehost.Host.OutboundHttp

/-!
# The pqproxy sidecar (`pq_sidecar.c`)

One scrape of the metrics of pqproxy, stored as `net.core/pqproxy/health` and broadcast. What the
outbound request comes to is up to the network.
-/

namespace Edgehost

/-- `edge_pq_sidecar_config_t`. -/
structure EdgePqSidecarConfig where
  enabled : Bool
  metricsUrl : Bytes
  scrapeIntervalMs : UInt32
  deriving DecidableEq

/-- `edge_pq_sidecar_config_defaults`. -/
def edgePqSidecarConfigDefaults : EdgePqSidecarConfig where
  enabled := false
  metricsUrl := bytes "http://127.0.0.1:9108/metrics"
  scrapeIntervalMs := 5000

/-! ## Metrics -/

/-- What ends a metric's name and labels. -/
def isPromBlank (c : UInt8) : Bool := c = 32 || c = 9

/-- The number behind a metric's name. -/
def promValue (rest : Bytes) : Option ℤ :=
  match rest with
  | [] => none
  | c :: _ =>
    if isPromBlank c ∨ c = lbrace then
      let q := (rest.dropWhile fun c => !(isPromBlank c || c = 10)).dropWhile isPromBlank
      if (strtoll q).2 = q then none else some (strtoll q).1
    else none

/-- `find_prom_num`: `prev` is the byte before the text, and `skip` counts the bytes of an occurrence
that are still to be passed over. -/
def findPromNum (metric : Bytes) : Option UInt8 → ℕ → Bytes → ℤ
  | _, _, [] => -1
  | _, skip + 1, c :: s => findPromNum metric (some c) skip s
  | prev, 0, c :: s =>
    if !metric.isPrefixOf (c :: s) then findPromNum metric (some c) 0 s
    else if prev.any (· ≠ 10) then findPromNum metric (some c) (metric.length - 1) s
    else if (bytes "# ").isPrefixOf (c :: s) ∨ (prev = none ∧ c = charByte '#') then
      findPromNum metric (some c) (metric.length - 1) s
    else
      match promValue ((c :: s).drop metric.length) with
      | some v => v
      | none => findPromNum metric (some c) (metric.length - 1) s

/-- A metric that is not there counts as 0. -/
def promOrZero (v : ℤ) : ℤ := if v ≥ 0 then v else 0

/-- `edge_pq_sidecar_parse_metrics`: the text for a scrape that is up. -/
def edgePqSidecarParseMetrics (text : Bytes) (healthCap : ℕ) (alloc : Bool) (clock : Clock) :
    Option Bytes :=
  if text.length = 0 ∨ healthCap < 32 ∨ !alloc then none
  else
    let tmp := cstr text
    let live := findPromNum (bytes "pqproxy_live_backends") none 0 tmp
    let active := findPromNum (bytes "pqproxy_active_frontends") none 0 tmp
    let waiters := findPromNum (bytes "pqproxy_pool_waiters") none 0 tmp
    let up : Bool := live ≥ 0 ∨ active ≥ 0 ∨ waiters ≥ 0
    let health := bytes "\x7b\"up\":" ++ (if up then bytes "true" else bytes "false")
      ++ bytes ",\"pool_busy\":" ++ decimalInt (promOrZero waiters)
      ++ bytes ",\"live_backends\":" ++ decimalInt (promOrZero live)
      ++ bytes ",\"active_frontends\":" ++ decimalInt (promOrZero active)
      ++ bytes ",\"scraped_at\":" ++ decimalInt clock.sec.toInt ++ bytes "\x7d"
    if health.length ≥ healthCap ∨ !up then none else some health

/-- What `edge_pq_sidecar_parse_metrics` writes to its out parameters. -/
structure PromReport where
  up : Bool
  poolBusy : ℤ
  liveBackends : ℤ
  activeFrontends : ℤ
  deriving DecidableEq

/-- `edge_pq_sidecar_parse_metrics`: the out parameters, or `none` when it returns before them. -/
def edgePqSidecarParseReport (text : Bytes) (healthCap : ℕ) (alloc : Bool) : Option PromReport :=
  if text.length = 0 ∨ healthCap < 32 ∨ !alloc then none
  else
    let tmp := cstr text
    let live := findPromNum (bytes "pqproxy_live_backends") none 0 tmp
    let active := findPromNum (bytes "pqproxy_active_frontends") none 0 tmp
    let waiters := findPromNum (bytes "pqproxy_pool_waiters") none 0 tmp
    some
      { up := live ≥ 0 ∨ active ≥ 0 ∨ waiters ≥ 0
        poolBusy := promOrZero waiters
        liveBackends := promOrZero live
        activeFrontends := promOrZero active }

/-- The text is written from the out parameters. -/
theorem edgePqSidecarParseMetrics_eq (text : Bytes) (healthCap : ℕ) (alloc : Bool) (clock : Clock) :
    edgePqSidecarParseMetrics text healthCap alloc clock =
      (edgePqSidecarParseReport text healthCap alloc).bind fun r =>
        let health := bytes "\x7b\"up\":" ++ (if r.up then bytes "true" else bytes "false")
          ++ bytes ",\"pool_busy\":" ++ decimalInt r.poolBusy
          ++ bytes ",\"live_backends\":" ++ decimalInt r.liveBackends
          ++ bytes ",\"active_frontends\":" ++ decimalInt r.activeFrontends
          ++ bytes ",\"scraped_at\":" ++ decimalInt clock.sec.toInt ++ bytes "\x7d"
        if health.length ≥ healthCap ∨ !r.up then none else some health := by
  unfold edgePqSidecarParseMetrics edgePqSidecarParseReport
  split_ifs
  · rfl
  · rfl

/-- The health of a proxy that cannot be reached. -/
def healthDown (clock : Clock) : Bytes :=
  snprintf 512 (bytes "\x7b\"up\":false,\"pool_busy\":0,\"scraped_at\":" ++ decimalInt clock.sec.toInt
    ++ bytes "\x7d")

/-- The health of a proxy whose metrics cannot be read. -/
def healthUnread (clock : Clock) : Bytes :=
  snprintf 512 (bytes "\x7b\"up\":false,\"error\":\"parse\",\"scraped_at\":"
    ++ decimalInt clock.sec.toInt ++ bytes "\x7d")

/-! ## A scrape -/

/-- The request of a scrape. -/
def scrapeRequest (cfg : EdgePqSidecarConfig) : EdgeHttpClientReq where
  method := some (bytes "GET")
  url := some cfg.metricsUrl
  host := none
  addrOverride := none
  hdrNames := []
  hdrValues := []
  nHeaders := 0
  body := none
  bodyLen := 0
  timeoutMs := 0
  userTag := 0

/-- What the system does for a scrape. -/
structure ScrapeEnv where
  net : Network
  allocBody : Bool
  allocText : Bool
  clock : Clock
  hubAlloc : ℕ → Bool

/-- The health that a scrape finds, and whether the request succeeded; `none` when there is no
request. -/
def scrapeHealth (env : ScrapeEnv) (cfg : EdgePqSidecarConfig) : Option (Bytes × Bool) :=
  if !cfg.enabled ∨ cfg.metricsUrl = [] ∨ !env.allocBody then none
  else
    let cap := 256 * 1024
    let (res, rc) := edgeOutboundHttpExecute env.net (scrapeRequest cfg)
      { allowBlockingDns := true, maxResponseBody := cap } cap
    if rc ≠ 0 ∨ res.transportErr ≠ 0 ∨ res.status ≠ 200 then some (healthDown env.clock, false)
    else
      some ((edgePqSidecarParseMetrics res.body 512 env.allocText env.clock).getD
        (healthUnread env.clock), true)

/-- The key of the health. -/
def healthKey : Bytes := bytes "pqproxy/health"

/-- Broadcast a new health under a new request id. -/
def broadcastHealth (env : ScrapeEnv) (hub : Option EdgeWsHub) (health : Bytes) :
    Option EdgeWsHub :=
  match hub with
  | none => none
  | some h =>
    let (hub, rid) := edgeWsHubMintRequestId (some h) none EDGE_WS_REQUEST_ID
    broadcastTo hub env.hubAlloc (bytes "net.core") healthKey (bytes "put") (some health) rid

/-- `edge_pq_sidecar_scrape_once`. -/
def edgePqSidecarScrapeOnce (env : ScrapeEnv) (cfg : EdgePqSidecarConfig) (st : StateStore)
    (hub : Option EdgeWsHub) : StateStore × Option EdgeWsHub × ℤ :=
  match scrapeHealth env cfg with
  | none => (st, hub, -1)
  | some (health, false) =>
    -- The result of the put is not looked at.
    ((edgeStatePut st (bytes "net.core") healthKey health).1, broadcastHealth env hub health, -1)
  | some (health, true) =>
    let (st, er) := edgeStatePut st (bytes "net.core") healthKey health
    if er ≠ .ok then (st, hub, -1) else (st, broadcastHealth env hub health, 0)

/-- A metrics page with labels and comments. -/
example : findPromNum (bytes "pqproxy_pool_waiters") none 0
    (bytes "# HELP pqproxy_pool_waiters x\npqproxy_pool_waiters\x7ba=1\x7d 7\n") = 7 := by
  decide +kernel

end Edgehost
