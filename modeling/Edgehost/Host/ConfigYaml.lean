import Edgehost.Core.EdgeConfig

/-!
# Loading the configuration (`config_yaml.c`)

A configuration file is read over the defaults: libyaml finds the scalar of each known path, and
`applyScalar` writes it into its field. The YAML parser is outside of the repository and so a
parameter, as are the file system and the memory that reading takes.
-/

namespace Edgehost

/-! ## Reading numbers and texts -/

/-- `strtoull` in base ten: the value, and the rest as `strtoll` has it. A numeral out of range is the
largest value, and a sign negates modulo `2 ^ 64`. -/
def strtoull (s : Bytes) : ℕ × Bytes :=
  let (neg, t) := takeSign (s.dropWhile isspace)
  let ds := t.takeWhile isdigit
  if ds = [] then (0, s)
  else
    let v := digitsValue ds
    (if v ≥ 2 ^ 64 then 2 ^ 64 - 1 else if neg then (2 ^ 64 - v) % 2 ^ 64 else v,
      t.dropWhile isdigit)

/-- `parse_bool`. -/
def parseBool (s : Bytes) : Option Bool :=
  if s ∈ [bytes "1", bytes "true", bytes "True", bytes "yes", bytes "on"] then some true
  else if s ∈ [bytes "0", bytes "false", bytes "False", bytes "no", bytes "off"] then some false
  else none

/-- `parse_u16`. -/
def parseU16 (s : Bytes) : Option UInt16 :=
  let (v, e) := strtoll s
  if e = s ∨ e ≠ [] ∨ v < 0 ∨ v > 65535 then none else some (UInt16.ofNat v.toNat)

/-- `parse_size`. -/
def parseSize (s : Bytes) : Option ℕ :=
  let (v, e) := strtoull s
  if e = s ∨ e ≠ [] then none else some v

/-- `copy_str` into a buffer of `dstSz` bytes. -/
def copyStr (dstSz : ℕ) (src : Bytes) : Option Bytes :=
  if dstSz = 0 ∨ src.length + 1 > dstSz then none else some src

/-! ## One scalar -/

/-- What a value does to a configuration: the new one, or what is wrong with the value. -/
abbrev ScalarReader := Bytes → EdgeConfig → Except Bytes EdgeConfig

/-- A value that is read by `parse` and written by `write`. -/
def scalarBy {β : Type*} (parse : Bytes → Option β) (msg : String)
    (write : EdgeConfig → β → EdgeConfig) : ScalarReader := fun val c =>
  match parse val with
  | none => .error (bytes msg)
  | some v => .ok (write c v)

/-- A text field of `cap` bytes. -/
def textField (cap : ℕ) (write : EdgeConfig → Bytes → EdgeConfig) : ScalarReader :=
  scalarBy (copyStr cap) "too long" write

/-- A switch. -/
def boolField (write : EdgeConfig → Bool → EdgeConfig) : ScalarReader :=
  scalarBy parseBool "invalid bool" write

/-- A size, which is not zero. -/
def sizeField (write : EdgeConfig → ℕ → EdgeConfig) : ScalarReader :=
  scalarBy (fun s => (parseSize s).filter (· ≠ 0)) "invalid size" write

/-- A number of 32 bits, which is not zero. -/
def u32Field (msg : String) (write : EdgeConfig → UInt32 → EdgeConfig) : ScalarReader :=
  scalarBy (fun s => (parseSize s).filter fun sz => sz ≠ 0 ∧ ¬sz > 0xffffffff) msg
    fun c sz => write c (UInt32.ofNat sz)

/-- The branches of `apply_scalar`: the keys of a field, and how its value is read. -/
def scalarRows : List (List String × ScalarReader) :=
  [(["listen.host"], textField EDGE_CONFIG_HOST_MAX fun c v => { c with listenHost := v }),
    (["listen.port"], scalarBy (fun s => (parseU16 s).filter (· ≠ 0)) "invalid port"
      fun c v => { c with listenPort := v }),
    (["spa.root", "spa_root"], textField EDGE_CONFIG_PATH_MAX fun c v => { c with spaRoot := v }),
    (["packages.root", "packages_root", "spa.packages"],
      textField EDGE_CONFIG_PATH_MAX fun c v => { c with packagesRoot := v }),
    (["spa.max_file_bytes", "static.max_file_bytes"],
      sizeField fun c v => { c with staticMaxFileBytes := v }),
    (["http.max_body_bytes"], sizeField fun c v => { c with httpMaxBodyBytes := v }),
    (["http.max_pending_outbound"], sizeField fun c v => { c with httpMaxPendingOutbound := v }),
    (["http.max_upstream_body_bytes"],
      sizeField fun c v => { c with httpMaxUpstreamBodyBytes := v }),
    (["state.namespaces.net_core.enabled", "state.net_core.enabled", "state.enable_net_core"],
      boolField fun c v => { c with stateNetCoreEnabled := v }),
    (["state.namespaces.map_dynamic.enabled", "state.map_dynamic.enabled",
      "state.enable_map_dynamic"], boolField fun c v => { c with stateMapDynamicEnabled := v }),
    (["state.namespaces.net_pon.enabled", "state.net_pon.enabled"],
      boolField fun c v => { c with stateNetPonEnabled := v }),
    (["state.namespaces.net_home.enabled", "state.net_home.enabled"],
      boolField fun c v => { c with stateNetHomeEnabled := v }),
    (["state.namespaces.electric.enabled", "state.electric.enabled"],
      boolField fun c v => { c with stateElectricEnabled := v }),
    (["state.namespaces.inventory.enabled", "state.inventory.enabled"],
      boolField fun c v => { c with stateInventoryEnabled := v }),
    (["auth.mode"], textField 32 fun c v => { c with authMode := v }),
    (["auth.lab_password_env"], textField 64 fun c v => { c with authLabPasswordEnv := v }),
    (["auth.session_hmac_key_env"], textField 64 fun c v => { c with authSessionHmacKeyEnv := v }),
    (["auth.session_ttl_s"], u32Field "invalid ttl" fun c v => { c with authSessionTtlS := v }),
    (["auth.proxy_hmac_key_env"], textField 64 fun c v => { c with authProxyHmacKeyEnv := v }),
    (["auth.proxy_max_skew_s"], u32Field "invalid skew" fun c v => { c with authProxyMaxSkewS := v }),
    (["dns.allow_blocking"], boolField fun c v => { c with dnsAllowBlocking := v }),
    (["plugins.openai_proxy.enabled", "openai_proxy.enabled"],
      boolField fun c v => { c with openaiEnabled := v }),
    (["plugins.openai_proxy.upstream", "openai_proxy.upstream"],
      textField 512 fun c v => { c with openaiUpstream := v }),
    (["plugins.openai_proxy.upstream_addr", "openai_proxy.upstream_addr"],
      textField 64 fun c v => { c with openaiUpstreamAddr := v }),
    (["plugins.openai_proxy.upstream_host", "openai_proxy.upstream_host"],
      textField 256 fun c v => { c with openaiUpstreamHost := v }),
    (["plugins.openai_proxy.api_key_env"], textField 64 fun c v => { c with openaiApiKeyEnv := v }),
    (["plugins.openai_proxy.service_api_key_env"],
      textField 64 fun c v => { c with openaiServiceKeyEnv := v }),
    (["plugins.openai_proxy.timeout_ms"], u32Field "invalid" fun c v => { c with openaiTimeoutMs := v }),
    -- The rate alone may be zero.
    (["plugins.openai_proxy.rate_limit_rpm"],
      scalarBy (fun s => (parseSize s).filter fun sz => ¬sz > 0xffffffff) "invalid"
        fun c sz => { c with openaiRateLimitRpm := UInt32.ofNat sz }),
    (["plugins.openai_proxy.max_concurrent_per_principal"],
      u32Field "invalid" fun c v => { c with openaiMaxConcurrent := v }),
    (["plugins.slack.enabled", "slack.enabled"], boolField fun c v => { c with slackEnabled := v }),
    (["plugins.teams.enabled", "teams.enabled"], boolField fun c v => { c with teamsEnabled := v }),
    (["tls.cert", "tls.cert_file"], textField EDGE_CONFIG_PATH_MAX fun c v => { c with tlsCert := v }),
    (["tls.key", "tls.key_file"], textField EDGE_CONFIG_PATH_MAX fun c v => { c with tlsKey := v }),
    (["tls.client_ca", "tls.client_ca_file"],
      textField EDGE_CONFIG_PATH_MAX fun c v => { c with tlsClientCa := v }),
    (["plugins.pqproxy.enabled", "pqproxy.enabled"],
      boolField fun c v => { c with pqproxyEnabled := v }),
    (["plugins.pqproxy.metrics_url", "pqproxy.metrics_url"],
      textField 256 fun c v => { c with pqproxyMetricsUrl := v }),
    (["plugins.pqproxy.scrape_interval_ms"],
      u32Field "invalid" fun c v => { c with pqproxyScrapeIntervalMs := v }),
    (["postgres.notify_enabled", "postgres.enabled"],
      boolField fun c v => { c with postgresNotifyEnabled := v }),
    (["postgres.listen_channels", "postgres.listen_channel"],
      textField 64 fun c v => { c with postgresListenChannel := v })]

/-- `apply_scalar` with an error buffer of `errLen` bytes; unknown keys are ignored. -/
def applyScalar (c : EdgeConfig) (key : String) (val : Bytes) (errLen : ℕ) :
    Except Bytes EdgeConfig :=
  match scalarRows.find? fun row => key ∈ row.1 with
  | none => .ok c
  | some row =>
    match row.2 val c with
    | .error msg => .error (snprintf errLen (bytes key ++ bytes ": " ++ msg))
    | .ok c => .ok c

/-- `g_paths`. -/
def gPaths : List String :=
  ["listen.host", "listen.port", "spa.root", "spa_root", "packages.root", "packages_root",
    "spa.packages", "spa.max_file_bytes", "static.max_file_bytes", "http.max_body_bytes",
    "http.max_pending_outbound", "http.max_upstream_body_bytes", "state.namespaces.net_core.enabled",
    "state.namespaces.map_dynamic.enabled", "state.namespaces.net_pon.enabled",
    "state.namespaces.net_home.enabled", "state.namespaces.electric.enabled",
    "state.namespaces.inventory.enabled", "state.net_core.enabled", "state.map_dynamic.enabled",
    "state.net_pon.enabled", "state.net_home.enabled", "state.electric.enabled",
    "state.inventory.enabled", "state.enable_net_core", "state.enable_map_dynamic", "auth.mode",
    "auth.lab_password_env", "auth.session_hmac_key_env", "auth.session_ttl_s",
    "auth.proxy_hmac_key_env", "auth.proxy_max_skew_s", "dns.allow_blocking",
    "plugins.openai_proxy.enabled", "openai_proxy.enabled", "plugins.openai_proxy.upstream",
    "openai_proxy.upstream", "plugins.openai_proxy.upstream_addr", "openai_proxy.upstream_addr",
    "plugins.openai_proxy.upstream_host", "openai_proxy.upstream_host",
    "plugins.openai_proxy.api_key_env", "plugins.openai_proxy.service_api_key_env",
    "plugins.openai_proxy.timeout_ms", "plugins.openai_proxy.rate_limit_rpm",
    "plugins.openai_proxy.max_concurrent_per_principal", "plugins.slack.enabled", "slack.enabled",
    "plugins.teams.enabled", "teams.enabled", "tls.cert", "tls.cert_file", "tls.key", "tls.key_file",
    "tls.client_ca", "tls.client_ca_file", "plugins.pqproxy.enabled", "pqproxy.enabled",
    "plugins.pqproxy.metrics_url", "pqproxy.metrics_url", "plugins.pqproxy.scrape_interval_ms",
    "postgres.notify_enabled", "postgres.enabled", "postgres.listen_channels",
    "postgres.listen_channel"]

/-! ## Loading -/

/-- An event of the YAML parser. -/
inductive YamlEvent where
  | error (message : Bytes)
  | other

/-- The YAML parser: what `yaml_create` gives, how much of its input it takes, the events that it
then yields with the parser behind them, and the scalar at a path with its length. -/
structure YamlLib (χ : Type*) where
  create : Option χ
  feedInput : χ → Bytes → ℕ × χ
  events : χ → List YamlEvent × χ
  lookupScalar : χ → Bytes → Option (Bytes × ℕ)

variable {χ : Type*}

/-- `lookup`: an empty scalar counts as absent. -/
def yamlLookup (lib : YamlLib χ) (ctx : χ) (path : String) : Option Bytes :=
  match lib.lookupScalar ctx (bytes path) with
  | none => none
  | some (v, len) => if len = 0 then none else some v

/-- The first error among the events of the parser. -/
def firstYamlError : List YamlEvent → Option Bytes
  | [] => none
  | .error message :: _ => some message
  | .other :: evs => firstYamlError evs

/-- The loop over the known paths. -/
def applyPaths (lib : YamlLib χ) (ctx : χ) (errLen : ℕ) :
    List String → EdgeConfig → Except Bytes EdgeConfig
  | [], c => .ok c
  | path :: paths, c =>
    match yamlLookup lib ctx path with
    | none => applyPaths lib ctx errLen paths c
    | some val =>
      match applyScalar c path val errLen with
      | .error err => .error err
      | .ok c => applyPaths lib ctx errLen paths c

/-- `load_from_ctx`. -/
def loadFromCtx (lib : YamlLib χ) (ctx : χ) (c : EdgeConfig) (errLen : ℕ) :
    Except Bytes EdgeConfig :=
  match firstYamlError (lib.events ctx).1 with
  | some message =>
    .error (snprintf errLen (bytes "yaml parse: " ++ if message ≠ [] then message else bytes "error"))
  | none => applyPaths lib (lib.events ctx).2 errLen gPaths c

/-- `edge_config_load_yaml_buf`. -/
def edgeConfigLoadYamlBuf (lib : YamlLib χ) (yaml : Bytes) (errLen : ℕ) : Except Bytes EdgeConfig :=
  if yaml = [] then .ok edgeConfigDefaults
  else
    match lib.create with
    | none => .error (snprintf errLen (bytes "yaml_create failed"))
    | some ctx =>
      if (lib.feedInput ctx yaml).1 = 0 then
        .error (snprintf errLen (bytes "yaml_feed_input consumed 0"))
      else loadFromCtx lib (lib.feedInput ctx yaml).2 edgeConfigDefaults errLen

/-- `edge_config_load_yaml_path`: `open` gives what can be read of the file at a path, and `alloc`
says whether memory for it is found. -/
def edgeConfigLoadYamlPath (lib : YamlLib χ) (openFile : Bytes → Option Bytes) (alloc : Bool)
    (path : Bytes) (errLen : ℕ) : Except Bytes EdgeConfig :=
  match openFile path with
  | none => .error (snprintf errLen (bytes "cannot open " ++ path))
  | some [] => .ok edgeConfigDefaults
  | some content =>
    if !alloc then .error (snprintf errLen (bytes "oom reading config"))
    else edgeConfigLoadYamlBuf lib content errLen

end Edgehost
