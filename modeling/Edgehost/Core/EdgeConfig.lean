import Edgehost.Common.CString

/-!
# Runtime configuration (`edge_config.c`)

`EdgeConfig` is `edge_config_t`, with C strings for the fixed-size text buffers. The core accepts a
configuration only through `edgeConfigValidate`, which returns the first failed check as the text it
leaves in the caller's error buffer.
-/

namespace Edgehost

/-- The size of `listen_host` and of the upstream host. -/
def EDGE_CONFIG_HOST_MAX : ℕ := 256

/-- The size of the path buffers. -/
def EDGE_CONFIG_PATH_MAX : ℕ := 512

/-- `edge_config_t`. -/
structure EdgeConfig where
  listenHost : Bytes
  listenPort : UInt16
  spaRoot : Bytes
  packagesRoot : Bytes
  staticMaxFileBytes : ℕ
  httpMaxBodyBytes : ℕ
  httpMaxPendingOutbound : ℕ
  httpMaxUpstreamBodyBytes : ℕ
  stateNetCoreEnabled : Bool
  stateMapDynamicEnabled : Bool
  stateNetPonEnabled : Bool
  stateNetHomeEnabled : Bool
  stateElectricEnabled : Bool
  stateInventoryEnabled : Bool
  authMode : Bytes
  authLabPasswordEnv : Bytes
  authSessionHmacKeyEnv : Bytes
  authProxyHmacKeyEnv : Bytes
  authSessionTtlS : UInt32
  authProxyMaxSkewS : UInt32
  dnsAllowBlocking : Bool
  openaiEnabled : Bool
  openaiUpstream : Bytes
  openaiUpstreamAddr : Bytes
  openaiUpstreamHost : Bytes
  openaiApiKeyEnv : Bytes
  openaiServiceKeyEnv : Bytes
  openaiTimeoutMs : UInt32
  openaiRateLimitRpm : UInt32
  openaiMaxConcurrent : UInt32
  slackEnabled : Bool
  teamsEnabled : Bool
  tlsCert : Bytes
  tlsKey : Bytes
  tlsClientCa : Bytes
  pqproxyEnabled : Bool
  pqproxyMetricsUrl : Bytes
  pqproxyScrapeIntervalMs : UInt32
  postgresNotifyEnabled : Bool
  postgresListenChannel : Bytes
  generation : UInt64
  deriving DecidableEq

/-- `edge_config_defaults`: the lab defaults. -/
def edgeConfigDefaults : EdgeConfig where
  listenHost := snprintf EDGE_CONFIG_HOST_MAX (bytes "0.0.0.0")
  listenPort := 8080
  spaRoot := snprintf EDGE_CONFIG_PATH_MAX (bytes "./spa")
  packagesRoot := snprintf EDGE_CONFIG_PATH_MAX (bytes "./packages")
  staticMaxFileBytes := 64 * 1024
  httpMaxBodyBytes := 1024 * 1024
  httpMaxPendingOutbound := 256
  httpMaxUpstreamBodyBytes := 4 * 1024 * 1024
  stateNetCoreEnabled := true
  stateMapDynamicEnabled := true
  stateNetPonEnabled := false
  stateNetHomeEnabled := false
  stateElectricEnabled := false
  stateInventoryEnabled := false
  authMode := snprintf 32 (bytes "open")
  authLabPasswordEnv := snprintf 64 (bytes "EDGEHOST_LAB_PASSWORD")
  authSessionHmacKeyEnv := snprintf 64 (bytes "EDGEHOST_SESSION_HMAC")
  authProxyHmacKeyEnv := snprintf 64 (bytes "EDGEHOST_PROXY_HMAC")
  authSessionTtlS := 28800
  authProxyMaxSkewS := 300
  dnsAllowBlocking := false
  openaiEnabled := false
  openaiUpstream := snprintf 512 (bytes "https://api.openai.com")
  openaiUpstreamAddr := []
  openaiUpstreamHost := []
  openaiApiKeyEnv := snprintf 64 (bytes "OPENAI_API_KEY")
  openaiServiceKeyEnv := snprintf 64 (bytes "EDGEHOST_OPENAI_SERVICE_KEY")
  openaiTimeoutMs := 60000
  openaiRateLimitRpm := 60
  openaiMaxConcurrent := 4
  slackEnabled := false
  teamsEnabled := false
  tlsCert := []
  tlsKey := []
  tlsClientCa := []
  pqproxyEnabled := false
  pqproxyMetricsUrl := snprintf 256 (bytes "http://127.0.0.1:9108/metrics")
  pqproxyScrapeIntervalMs := 5000
  postgresNotifyEnabled := false
  postgresListenChannel := snprintf 64 (bytes "map_overlay")
  generation := 0

/-- `edge_config_validate` with an error buffer of `errLen` bytes; `none` is the NULL pointer. -/
def edgeConfigValidate (c : Option EdgeConfig) (errLen : ℕ) : Except Bytes Unit :=
  let fail (msg : String) : Except Bytes Unit := .error (snprintf errLen (bytes msg))
  match c with
  | none => fail "null config"
  | some c =>
    if c.listenHost = [] then fail "listen.host empty"
    else if c.listenPort = 0 then fail "listen.port invalid"
    else if c.httpMaxBodyBytes = 0 then fail "http.max_body_bytes must be > 0"
    else if c.httpMaxPendingOutbound = 0 then fail "http.max_pending_outbound must be > 0"
    else if c.httpMaxUpstreamBodyBytes = 0 then fail "http.max_upstream_body_bytes must be > 0"
    else if c.authMode ≠ [] ∧ c.authMode ≠ bytes "open" ∧ c.authMode ≠ bytes "lab_password" ∧
        c.authMode ≠ bytes "proxy_headers" then
      fail "auth.mode invalid (open|lab_password|proxy_headers)"
    else if c.authSessionTtlS = 0 then fail "auth.session_ttl_s must be > 0"
    else if c.authProxyMaxSkewS = 0 then fail "auth.proxy_max_skew_s must be > 0"
    else .ok ()

/-- What a validated configuration satisfies. -/
structure EdgeConfig.Valid (c : EdgeConfig) : Prop where
  listenHost : c.listenHost ≠ []
  listenPort : c.listenPort ≠ 0
  httpMaxBodyBytes : c.httpMaxBodyBytes ≠ 0
  httpMaxPendingOutbound : c.httpMaxPendingOutbound ≠ 0
  httpMaxUpstreamBodyBytes : c.httpMaxUpstreamBodyBytes ≠ 0
  authMode : c.authMode ∈ [[], bytes "open", bytes "lab_password", bytes "proxy_headers"]
  authSessionTtlS : c.authSessionTtlS ≠ 0
  authProxyMaxSkewS : c.authProxyMaxSkewS ≠ 0

/-- **Validation accepts exactly the valid configurations.** -/
theorem edgeConfigValidate_ok_iff (c : EdgeConfig) (errLen : ℕ) :
    edgeConfigValidate (some c) errLen = .ok () ↔ c.Valid := by
  constructor
  · intro h
    simp only [edgeConfigValidate] at h
    split_ifs at h
    constructor <;> first | assumption | (simp only [List.mem_cons, List.not_mem_nil]; tauto)
  · intro h
    have hmode := h.authMode
    simp only [List.mem_cons, List.not_mem_nil, or_false] at hmode
    simp only [edgeConfigValidate, h.listenHost, h.listenPort, h.httpMaxBodyBytes,
      h.httpMaxPendingOutbound, h.httpMaxUpstreamBodyBytes, h.authSessionTtlS, h.authProxyMaxSkewS,
      if_false]
    rw [if_neg (by tauto)]

/-- The defaults pass their own validation. -/
theorem edgeConfigDefaults_valid : edgeConfigDefaults.Valid := by
  constructor <;> decide

end Edgehost
