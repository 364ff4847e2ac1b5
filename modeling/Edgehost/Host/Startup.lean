import Edgehost.Host.ConfigHup
import Edgehost.Host.IouringLoop
import Edgehost.Host.LoginFlow
import Edgehost.Host.RouteMatch

/-!
# The start of the process (`main.c`, `auth_host.c`)

`main` loads the configuration, hands it to the core, takes the secrets from the environment, registers
the bundled plugins and enters the loop. A secret that is missing or too long stops it.

* `mainStart_eq_some_iff` — when the process gets to the loop, and with what.
* `mainStart_ready`       — it gets there with a valid configuration, the secrets of the mode that this
  asks for, and no plugin that can be reached but the proxy, with its key.
-/

namespace Edgehost

/-! ## The secrets (`auth_host.c`) -/

def EDGE_AUTH_HMAC_KEY_MAX : ℕ := 64

/-- `load_key_env`, with the text left in an error buffer of `errLen` bytes. -/
def loadKeyEnv (getenv : Bytes → Option Bytes) (envName : Bytes) (dstMax errLen : ℕ) (label : Bytes) :
    Except Bytes Bytes :=
  let key := (getenv envName).getD []
  if key = [] then
    .error (snprintf errLen (bytes "env " ++ envName ++ bytes " empty (" ++ label ++ bytes ")"))
  else if key.length > dstMax then
    .error (snprintf errLen (bytes "env " ++ envName ++ bytes " too long (" ++ label ++ bytes ")"))
  else .ok key

/-- The name of a variable, or the usual one. -/
def envOr (name : Bytes) (usual : String) : Bytes := if name ≠ [] then name else bytes usual

/-- The context before its mode is known. -/
def authBase (cfg : EdgeConfig) : EdgeAuthCtx :=
  { edgeAuthCtxInit with
    sessionTtlS := if cfg.authSessionTtlS ≠ 0 then cfg.authSessionTtlS else 28800
    proxyMaxSkewS := if cfg.authProxyMaxSkewS ≠ 0 then cfg.authProxyMaxSkewS else 300 }

/-- `edge_auth_ctx_from_config`. -/
def edgeAuthCtxFromConfig (getenv : Bytes → Option Bytes) (cfg : EdgeConfig) (errLen : ℕ) :
    Except Bytes EdgeAuthCtx :=
  let out := authBase cfg
  let mode := if cfg.authMode ≠ [] then cfg.authMode else bytes "open"
  if mode = bytes "open" then .ok { out with mode := .modeOpen }
  else if mode = bytes "proxy_headers" then
    (loadKeyEnv getenv (envOr cfg.authProxyHmacKeyEnv "EDGEHOST_PROXY_HMAC") EDGE_AUTH_HMAC_KEY_MAX
      errLen (bytes "proxy HMAC key")).map fun key =>
        { out with mode := .modeProxyHeaders, proxyHmacKey := key }
  else if mode ≠ bytes "lab_password" then .error (snprintf errLen (bytes "unknown auth.mode"))
  else
    let pwEnv := envOr cfg.authLabPasswordEnv "EDGEHOST_LAB_PASSWORD"
    let pw := (getenv pwEnv).getD []
    if pw = [] then
      .error (snprintf errLen (bytes "env " ++ pwEnv ++ bytes " empty (lab password)"))
    else if pw.length ≥ EDGE_AUTH_PASSWORD_MAX then
      .error (snprintf errLen (bytes "lab password too long"))
    else
      (loadKeyEnv getenv (envOr cfg.authSessionHmacKeyEnv "EDGEHOST_SESSION_HMAC") EDGE_AUTH_HMAC_KEY_MAX
        errLen (bytes "session HMAC key")).map fun key =>
          { out with
            mode := .modeLabPassword
            labPassword := snprintf EDGE_AUTH_PASSWORD_MAX pw
            hmacKey := key }

/-! ## The stubs (`slack_plugin.c`, `teams_plugin.c`) -/

/-- The table of a plugin that runs sessions and does nothing yet: it takes no request. -/
def sessionVtbl (message : String) : EdgePluginVtbl OpenaiData where
  kind := .session
  init := some fun d => .ask (.log 2 (some (bytes message))) fun _ => .ret (0, d)
  onHttp := none
  onHttpComplete := none

/-- `slack_vtbl`, of an enabled plugin. -/
def slackVtbl : EdgePluginVtbl OpenaiData :=
  sessionVtbl "slack_plugin: enabled but stub (phase-2 Socket Mode)"

/-- `teams_vtbl`, of an enabled plugin. -/
def teamsVtbl : EdgePluginVtbl OpenaiData :=
  sessionVtbl "teams_plugin: enabled but stub (phase-2 Graph/Bot)"

/-- The plugins that come with the host. -/
inductive BundledPlugin where
  | openai
  | slack
  | teams
  deriving DecidableEq

/-- Their tables, at time `now`; `alloc` says whether the host can grow its buffer. The proxy is the only
one with memory. -/
def bundledVtbl (now : ℤ) (alloc : Bool) : BundledPlugin → Option (EdgePluginVtbl OpenaiData)
  | .openai => some (openaiVtbl now alloc)
  | .slack => some slackVtbl
  | .teams => some teamsVtbl

/-! ## The configuration -/

/-- The arguments of the process, as `getopt_long` leaves them. -/
structure StartArgs where
  configPath : Option Bytes
  hostOverride : Option Bytes
  portOverride : ℤ
  once : Bool

/-- What the process finds: files, environment variables, and memory for each part. -/
structure StartEnv (χ : Type*) where
  reload : ReloadEnv χ
  getenv : Bytes → Option Bytes
  createCore : Bool
  createStore : Bool
  allocNs : Bytes → Bool
  createHost : Bool
  initOpenai : Bool
  initSlack : Bool
  initTeams : Bool

variable {χ η ω : Type*}

/-- The configuration that the core is given: that of the file, or the defaults, with the overrides. -/
def startConfig (env : StartEnv χ) (args : StartArgs) : Option EdgeConfig := do
  let cfg ← match args.configPath with
    | none => some edgeConfigDefaults
    | some path => (env.reload.shadow path).toOption
  let cfg ← match args.hostOverride with
    | none => some cfg
    | some host =>
      if host.length ≥ EDGE_CONFIG_HOST_MAX then none
      else some { cfg with listenHost := snprintf EDGE_CONFIG_HOST_MAX host }
  some (if args.portOverride > 0 ∧ args.portOverride ≤ 65535 then
    { cfg with listenPort := UInt16.ofNat args.portOverride.toNat } else cfg)

/-! ## The plugins -/

/-- The configuration of the proxy that `main` derives. -/
def startOpenaiConfig (ac : EdgeConfig) : EdgeOpenaiProxyConfig :=
  { edgeOpenaiProxyConfigDefaults with
    enabled := true
    upstream := snprintf EDGE_OPENAI_URL_MAX ac.openaiUpstream
    upstreamAddr := snprintf 64 ac.openaiUpstreamAddr
    upstreamHost := snprintf 256 ac.openaiUpstreamHost
    apiKeyEnv := snprintf 64 ac.openaiApiKeyEnv
    timeoutMs := ac.openaiTimeoutMs
    rateLimitRpm := ac.openaiRateLimitRpm
    maxConcurrentPerPrincipal := ac.openaiMaxConcurrent }

/-- The plugin host of a starting process, and the memory of the proxy. -/
abbrev StartHost := EdgePluginHost BundledPlugin × OpenaiData

/-- Register one of the plugins. -/
def registerBundled (p : BundledPlugin) (r : StartHost) : Option StartHost :=
  let (h, mem, rc) := edgePluginHostRegister (bundledVtbl 0 true) r.1 r.2 (some p)
  if rc ≠ 0 then none else some (h, mem)

/-- Register the proxy and its route. -/
def startOpenai (env : StartEnv χ) (ac : EdgeConfig) (r : StartHost) : Option StartHost := do
  let mem ← if env.initOpenai then edgeOpenaiProxyInitPlugin env.getenv (some (startOpenaiConfig ac))
    else none
  let (h, mem) ← registerBundled .openai (r.1, mem)
  let (h, rc) := edgePluginHostAddRoute h (some (bytes "/v1")) (some .openai)
  if rc ≠ 0 then none else some (h, mem)

/-- The stub plugins. -/
def startStub (enabled init : Bool) (p : BundledPlugin) (r : StartHost) : Option StartHost :=
  if !enabled then some r else if !init then none else registerBundled p r

/-- The service key, where one is set that fits. -/
def startServiceKey (env : StartEnv χ) (ac : EdgeConfig) : Option Bytes :=
  let key := (env.getenv (envOr (snprintf 64 ac.openaiServiceKeyEnv) "EDGEHOST_OPENAI_SERVICE_KEY")).getD []
  if key ≠ [] ∧ key.length < 256 then some (snprintf 256 key) else none

/-- The store that the plugins share with the loop. -/
def startStore (env : StartEnv χ) (ac : EdgeConfig) : Option StateStore :=
  if env.createStore then
    some (edgeStateApplyConfig
      (edgeStateCreateWithConfig ⟨EDGE_STATE_KEYS_DEFAULT, EDGE_STATE_VALUE_DEFAULT⟩) ac env.allocNs)
  else none

/-- What `main` hands to the loop. -/
structure Started where
  cfg : EdgeConfig
  auth : EdgeAuthCtx
  plugins : Option (EdgePluginHost BundledPlugin)
  mem : OpenaiData
  store : Option StateStore
  serviceKey : Option Bytes
  maxAccepts : ℕ

/-- The plugin host with the plugins that the configuration enables. -/
def startPlugins (env : StartEnv χ) (ac : EdgeConfig) (store : Option StateStore) : Option StartHost := do
  let r : StartHost ← if env.createHost then
      some (edgePluginHostCreate ac.httpMaxPendingOutbound store, openaiData edgeOpenaiProxyConfigDefaults [])
    else none
  let r ← if ac.openaiEnabled then startOpenai env ac r else some r
  let r ← startStub ac.slackEnabled env.initSlack .slack r
  startStub ac.teamsEnabled env.initTeams .teams r

/-- Some plugin is enabled. -/
def needPluginHost (ac : EdgeConfig) : Bool := ac.openaiEnabled || ac.slackEnabled || ac.teamsEnabled

/-- `main` behind the configuration: the secrets and the plugins. -/
def startParts (env : StartEnv χ) (once : Bool) (ac : EdgeConfig) : Option Started := do
  let auth ← (edgeAuthCtxFromConfig env.getenv ac 160).toOption
  let maxAccepts := if once then 1 else 0
  if needPluginHost ac then
    let store := startStore env ac
    let (h, mem) ← startPlugins env ac store
    let serviceKey := if ac.openaiEnabled then startServiceKey env ac else none
    some ⟨ac, auth, some h, mem, store, serviceKey, maxAccepts⟩
  else some ⟨ac, auth, none, openaiData edgeOpenaiProxyConfigDefaults [], none, none, maxAccepts⟩

/-- `main` up to `edge_iouring_run`; `none` is an exit with status 1. -/
def mainStart (env : StartEnv χ) (args : StartArgs) : Option Started := do
  let cfg ← startConfig env args
  let core ← if env.createCore then some (edgecoreCreateWithConfig 0) else none
  let (core, rc) := edgecoreApplyConfig core (some cfg)
  if rc ≠ 0 then none else startParts env args.once (edgecoreConfig core)

/-! ## The secrets that are there -/

/-- A variable that holds a secret of at most `max` bytes. -/
def SecretIn (getenv : Bytes → Option Bytes) (envName : Bytes) (max : ℕ) (key : Bytes) : Prop :=
  getenv envName = some key ∧ key ≠ [] ∧ key.length ≤ max

theorem getD_eq_of_ne_nil {o : Option Bytes} {key : Bytes} (hne : key ≠ []) :
    o.getD [] = key ↔ o = some key := by
  cases o with
  | none => exact ⟨fun h => absurd h.symm hne, fun h => by cases h⟩
  | some v => simp

theorem loadKeyEnv_eq_ok_iff {getenv : Bytes → Option Bytes} {envName label key : Bytes} {dstMax errLen : ℕ} :
    loadKeyEnv getenv envName dstMax errLen label = .ok key ↔ SecretIn getenv envName dstMax key := by
  unfold loadKeyEnv SecretIn
  dsimp only
  constructor
  · intro h
    split_ifs at h with hne hlong
    obtain rfl : (getenv envName).getD [] = key := Except.ok.inj h
    exact ⟨(getD_eq_of_ne_nil hne).mp rfl, hne, by omega⟩
  · rintro ⟨hkey, hne, hle⟩
    rw [hkey, Option.getD_some, if_neg hne, if_neg (by omega)]

/-- The contexts that a configuration and its environment make: each mode with its secrets. -/
inductive AuthFrom (getenv : Bytes → Option Bytes) (cfg : EdgeConfig) : EdgeAuthCtx → Prop
  | open_ (hmode : cfg.authMode = [] ∨ cfg.authMode = bytes "open") :
    AuthFrom getenv cfg { authBase cfg with mode := .modeOpen }
  | proxy {key : Bytes} (hmode : cfg.authMode = bytes "proxy_headers")
    (hkey : SecretIn getenv (envOr cfg.authProxyHmacKeyEnv "EDGEHOST_PROXY_HMAC") EDGE_AUTH_HMAC_KEY_MAX
      key) :
    AuthFrom getenv cfg { authBase cfg with mode := .modeProxyHeaders, proxyHmacKey := key }
  | lab {pw key : Bytes} (hmode : cfg.authMode = bytes "lab_password")
    (hpw : SecretIn getenv (envOr cfg.authLabPasswordEnv "EDGEHOST_LAB_PASSWORD")
      (EDGE_AUTH_PASSWORD_MAX - 1) pw)
    (hkey : SecretIn getenv (envOr cfg.authSessionHmacKeyEnv "EDGEHOST_SESSION_HMAC")
      EDGE_AUTH_HMAC_KEY_MAX key) :
    AuthFrom getenv cfg
      { authBase cfg with mode := .modeLabPassword, labPassword := pw, hmacKey := key }

theorem map_eq_ok_iff {ε α β : Type*} {r : Except ε α} {f : α → β} {b : β} :
    r.map f = .ok b ↔ ∃ a, r = .ok a ∧ f a = b := by
  cases r with
  | error e => simp [Except.map]
  | ok a => simp [Except.map]

/-- **When a context is made, and which.** -/
theorem edgeAuthCtxFromConfig_eq_ok_iff {getenv : Bytes → Option Bytes} {cfg : EdgeConfig} {errLen : ℕ}
    {out : EdgeAuthCtx} :
    edgeAuthCtxFromConfig getenv cfg errLen = .ok out ↔ AuthFrom getenv cfg out := by
  unfold edgeAuthCtxFromConfig
  dsimp only
  constructor
  · intro h
    by_cases hempty : cfg.authMode ≠ []
    · rw [if_pos hempty] at h
      split_ifs at h with hopen hproxy hlab hpw hlong
      · obtain rfl := Except.ok.inj h
        exact .open_ (.inr hopen)
      · obtain ⟨key, hkey, rfl⟩ := map_eq_ok_iff.mp h
        exact .proxy hproxy (loadKeyEnv_eq_ok_iff.mp hkey)
      · obtain ⟨key, hkey, rfl⟩ := map_eq_ok_iff.mp h
        rw [ge_iff_le, not_le] at hlong
        rw [snprintf_of_fits hlong]
        exact .lab (not_not.mp hlab) ⟨(getD_eq_of_ne_nil hpw).mp rfl, hpw, Nat.le_sub_one_of_lt hlong⟩
          (loadKeyEnv_eq_ok_iff.mp hkey)
    · rw [if_neg hempty, if_pos rfl] at h
      obtain rfl := Except.ok.inj h
      exact .open_ (.inl (not_not.mp hempty))
  · intro h
    cases h with
    | open_ hmode =>
      rw [if_pos]
      rcases hmode with hnil | hopen
      · rw [hnil]; decide
      · rw [hopen]; decide
    | proxy hmode hkey =>
      have hset : (if cfg.authMode ≠ [] then cfg.authMode else bytes "open") = bytes "proxy_headers" := by
        rw [hmode]
        decide
      rw [hset, if_neg (show ¬bytes "proxy_headers" = bytes "open" by decide), if_pos rfl, map_eq_ok_iff]
      exact ⟨_, loadKeyEnv_eq_ok_iff.mpr hkey, rfl⟩
    | @lab pw key hmode hpw hkey =>
      obtain ⟨hget, hne, hle⟩ := hpw
      have hshort : pw.length < EDGE_AUTH_PASSWORD_MAX := by
        rw [EDGE_AUTH_PASSWORD_MAX] at hle ⊢
        omega
      have hset : (if cfg.authMode ≠ [] then cfg.authMode else bytes "open") = bytes "lab_password" := by
        rw [hmode]
        decide
      rw [hset, if_neg (show ¬bytes "lab_password" = bytes "open" by decide),
        if_neg (show ¬bytes "lab_password" = bytes "proxy_headers" by decide),
        if_neg (show ¬bytes "lab_password" ≠ bytes "lab_password" by decide), hget, Option.getD_some,
        if_neg hne, if_neg (not_le.mpr hshort), map_eq_ok_iff, snprintf_of_fits hshort]
      exact ⟨_, loadKeyEnv_eq_ok_iff.mpr hkey, rfl⟩

/-! ## The plugins that are there -/

/-- Registering a bundled plugin appends it, as long as there is room. -/
theorem registerBundled_eq (p : BundledPlugin) (r : StartHost) :
    registerBundled p r
      = if r.1.plugins.length ≥ EDGE_PLUGIN_HOST_MAX_PLUGINS then none
        else some ({ r.1 with plugins := r.1.plugins ++ [p] }, r.2) := by
  unfold registerBundled edgePluginHostRegister
  by_cases hfull : r.1.plugins.length ≥ EDGE_PLUGIN_HOST_MAX_PLUGINS
  · cases p <;> simp [bundledVtbl, hfull]
  · cases p <;>
      simp [bundledVtbl, hfull, openaiVtbl, slackVtbl, teamsVtbl, sessionVtbl, Client.run, apiAnswer]

/-- The host with the plugins that a configuration enables. -/
def enabledHost (ac : EdgeConfig) (store : Option StateStore) : EdgePluginHost BundledPlugin :=
  { edgePluginHostCreate ac.httpMaxPendingOutbound store with
    plugins := (if ac.openaiEnabled then [.openai] else []) ++ (if ac.slackEnabled then [.slack] else [])
      ++ (if ac.teamsEnabled then [.teams] else [])
    routes := if ac.openaiEnabled then [(bytes "/v1", .openai)] else [] }

/-- The environment has what the enabled plugins need; `mem` is the memory of the proxy. -/
structure PluginsFrom (env : StartEnv χ) (ac : EdgeConfig) (mem : OpenaiData) : Prop where
  host : env.createHost
  openai : if ac.openaiEnabled then env.initOpenai ∧ ∃ key,
      SecretIn env.getenv (envOr (snprintf 64 ac.openaiApiKeyEnv) "OPENAI_API_KEY") (EDGE_OPENAI_KEY_MAX - 1)
        key ∧ mem = openaiData (startOpenaiConfig ac) key
    else mem = openaiData edgeOpenaiProxyConfigDefaults []
  slack : ac.slackEnabled → env.initSlack
  teams : ac.teamsEnabled → env.initTeams

theorem initPlugin_eq_some_iff {getenv : Bytes → Option Bytes} {ac : EdgeConfig} {mem : OpenaiData} :
    edgeOpenaiProxyInitPlugin getenv (some (startOpenaiConfig ac)) = some mem ↔
      ∃ key, SecretIn getenv (envOr (snprintf 64 ac.openaiApiKeyEnv) "OPENAI_API_KEY")
        (EDGE_OPENAI_KEY_MAX - 1) key ∧ mem = openaiData (startOpenaiConfig ac) key := by
  unfold edgeOpenaiProxyInitPlugin SecretIn
  dsimp only
  rw [Option.getD_some, if_pos (show (startOpenaiConfig ac).enabled = true from rfl)]
  have hname : (if (startOpenaiConfig ac).apiKeyEnv ≠ [] then (startOpenaiConfig ac).apiKeyEnv
      else bytes "OPENAI_API_KEY") = envOr (snprintf 64 ac.openaiApiKeyEnv) "OPENAI_API_KEY" := rfl
  rw [hname]
  generalize getenv (envOr (snprintf 64 ac.openaiApiKeyEnv) "OPENAI_API_KEY") = value
  constructor
  · intro h
    obtain ⟨hne, h⟩ := Option.ite_none_left_eq_some.mp h
    obtain ⟨hlong, h⟩ := Option.ite_none_left_eq_some.mp h
    rw [ge_iff_le, not_le] at hlong
    rw [snprintf_of_fits hlong] at h
    exact ⟨value.getD [], ⟨(getD_eq_of_ne_nil hne).mp rfl, hne, Nat.le_sub_one_of_lt hlong⟩,
      (Option.some.inj h).symm⟩
  · rintro ⟨key, ⟨rfl, hne, hle⟩, rfl⟩
    have hshort : key.length < EDGE_OPENAI_KEY_MAX := by
      rw [EDGE_OPENAI_KEY_MAX] at hle ⊢
      omega
    rw [Option.getD_some, if_neg hne, if_neg (not_le.mpr hshort), snprintf_of_fits hshort]

theorem startOpenai_eq_some_iff {env : StartEnv χ} {ac : EdgeConfig} {h : EdgePluginHost BundledPlugin}
    (hplugins : h.plugins = []) (hroutes : h.routes = []) {mem₀ : OpenaiData} {r : StartHost} :
    startOpenai env ac (h, mem₀) = some r ↔
      env.initOpenai ∧ ∃ key, SecretIn env.getenv
        (envOr (snprintf 64 ac.openaiApiKeyEnv) "OPENAI_API_KEY") (EDGE_OPENAI_KEY_MAX - 1) key ∧
        r = ({ h with plugins := [.openai], routes := [(bytes "/v1", .openai)] },
          openaiData (startOpenaiConfig ac) key) := by
  have hroute : edgePluginHostAddRoute { h with plugins := h.plugins ++ [BundledPlugin.openai] }
      (some (bytes "/v1")) (some .openai)
        = ({ h with plugins := [.openai], routes := [(bytes "/v1", .openai)] }, 0) := by
    unfold edgePluginHostAddRoute
    dsimp only
    rw [if_neg (show ¬bytes "/v1" = [] by decide), hroutes, hplugins, if_neg (by decide),
      if_neg (by decide)]
    rfl
  unfold startOpenai
  cases hinit : env.initOpenai with
  | false => simp
  | true =>
    simp only [if_true, Option.bind_eq_bind, Option.bind_eq_some_iff, initPlugin_eq_some_iff,
      registerBundled_eq, true_and]
    constructor
    · rintro ⟨mem, ⟨key, hkey, rfl⟩, ⟨h', mem'⟩, hreg, hrest⟩
      rw [hplugins, if_neg (by decide)] at hreg
      obtain ⟨rfl, rfl⟩ := Prod.mk.inj (Option.some.inj hreg)
      rw [hplugins] at hroute
      simp only [hroute] at hrest
      exact ⟨key, hkey, (Option.some.inj hrest).symm⟩
    · rintro ⟨key, hkey, rfl⟩
      refine ⟨_, ⟨key, hkey, rfl⟩, ({ h with plugins := h.plugins ++ [BundledPlugin.openai] },
        openaiData (startOpenaiConfig ac) key), ?_, ?_⟩
      · rw [hplugins, if_neg (by decide)]
      · simp only [hroute]
        rfl

theorem startStub_eq_some_iff {enabled init : Bool} {p : BundledPlugin} {r r' : StartHost}
    (hroom : r.1.plugins.length < EDGE_PLUGIN_HOST_MAX_PLUGINS) :
    startStub enabled init p r = some r' ↔
      (enabled → init) ∧
        r' = ({ r.1 with plugins := r.1.plugins ++ if enabled then [p] else [] }, r.2) := by
  unfold startStub
  rw [registerBundled_eq, if_neg (not_le.mpr hroom)]
  cases enabled with
  | false =>
    simp only [Bool.not_false, if_true, Option.some.injEq, Bool.false_eq_true, false_implies, if_false,
      List.append_nil, true_and]
    exact eq_comm
  | true => cases init <;> simp [eq_comm]

theorem startStubs_eq_some_iff {env : StartEnv χ} {ac : EdgeConfig} {r r' : StartHost}
    (hfew : r.1.plugins.length ≤ 1) :
    ((startStub ac.slackEnabled env.initSlack .slack r).bind
        (startStub ac.teamsEnabled env.initTeams .teams)) = some r' ↔
      ((ac.slackEnabled → env.initSlack) ∧ (ac.teamsEnabled → env.initTeams)) ∧
        r' = ({ r.1 with plugins := r.1.plugins ++ (if ac.slackEnabled then [.slack] else [])
          ++ (if ac.teamsEnabled then [.teams] else []) }, r.2) := by
  have hroom : r.1.plugins.length < EDGE_PLUGIN_HOST_MAX_PLUGINS := by
    rw [EDGE_PLUGIN_HOST_MAX_PLUGINS]
    omega
  have hroom' : (r.1.plugins ++ if ac.slackEnabled then [BundledPlugin.slack] else []).length
      < EDGE_PLUGIN_HOST_MAX_PLUGINS := by
    rw [List.length_append, EDGE_PLUGIN_HOST_MAX_PLUGINS]
    split_ifs
    · rw [List.length_singleton]
      omega
    · rw [List.length_nil]
      omega
  rw [Option.bind_eq_some_iff]
  constructor
  · rintro ⟨r₁, hslack, hteams⟩
    obtain ⟨hinit, rfl⟩ := (startStub_eq_some_iff hroom).mp hslack
    obtain ⟨hinit', rfl⟩ := (startStub_eq_some_iff hroom').mp hteams
    exact ⟨⟨hinit, hinit'⟩, rfl⟩
  · rintro ⟨⟨hinit, hinit'⟩, rfl⟩
    exact ⟨_, (startStub_eq_some_iff hroom).mpr ⟨hinit, rfl⟩,
      (startStub_eq_some_iff hroom').mpr ⟨hinit', rfl⟩⟩

/-- **What the plugins need**, and the host that then has them. -/
theorem startPlugins_eq_some_iff {env : StartEnv χ} {ac : EdgeConfig} {store : Option StateStore}
    {h : EdgePluginHost BundledPlugin} {mem : OpenaiData} :
    startPlugins env ac store = some (h, mem) ↔ PluginsFrom env ac mem ∧ h = enabledHost ac store := by
  unfold startPlugins
  cases hhost : env.createHost with
  | false =>
    simp only [Bool.false_eq_true, if_false, Option.bind_eq_bind, Option.bind_none, reduceCtorEq, false_iff,
      not_and]
    exact fun hfrom => absurd hfrom.host (by rw [hhost]; exact Bool.false_ne_true)
  | true =>
    simp only [if_true, Option.bind_eq_bind, Option.bind_some]
    cases hopenai : ac.openaiEnabled with
    | false =>
      simp only [Bool.false_eq_true, if_false]
      refine (startStubs_eq_some_iff (show ([] : List BundledPlugin).length ≤ 1 from Nat.zero_le 1)).trans ?_
      rw [Prod.mk.injEq, enabledHost, hopenai]
      constructor
      · rintro ⟨⟨hslack, hteams⟩, rfl, rfl⟩
        exact ⟨⟨hhost, by rw [hopenai]; rfl, hslack, hteams⟩, rfl⟩
      · rintro ⟨⟨-, hmem, hslack, hteams⟩, rfl⟩
        rw [hopenai] at hmem
        exact ⟨⟨hslack, hteams⟩, rfl, hmem⟩
    | true =>
      have hone : [BundledPlugin.openai].length ≤ 1 := Nat.le_refl 1
      simp only [if_true]
      rw [Option.bind_eq_some_iff]
      constructor
      · rintro ⟨r₁, hstart, hstubs⟩
        obtain ⟨hinit, key, hkey, rfl⟩ := (startOpenai_eq_some_iff rfl rfl).mp hstart
        obtain ⟨⟨hslack, hteams⟩, heq⟩ := (startStubs_eq_some_iff hone).mp hstubs
        obtain ⟨rfl, rfl⟩ := Prod.mk.inj heq
        refine ⟨⟨hhost, ?_, hslack, hteams⟩, ?_⟩
        · rw [hopenai]
          exact ⟨hinit, key, hkey, rfl⟩
        · rw [enabledHost, hopenai]
          rfl
      · rintro ⟨⟨-, hproxy, hslack, hteams⟩, rfl⟩
        rw [hopenai] at hproxy
        obtain ⟨hinit, key, hkey, rfl⟩ := hproxy
        refine ⟨_, (startOpenai_eq_some_iff rfl rfl).mpr ⟨hinit, key, hkey, rfl⟩,
          (startStubs_eq_some_iff hone).mpr ⟨⟨hslack, hteams⟩, ?_⟩⟩
        rw [enabledHost, hopenai]
        rfl

/-! ## The start -/

/-- The configuration that the core keeps of the first that it accepts. -/
def firstConfig (cfg : EdgeConfig) : EdgeConfig := { cfg with generation := 1 }

theorem applyConfig_first (cfg : EdgeConfig) :
    (cfg.Valid ∧ (edgecoreApplyConfig (edgecoreCreateWithConfig 0) (some cfg)).2 = 0 ∧
      edgecoreConfig (edgecoreApplyConfig (edgecoreCreateWithConfig 0) (some cfg)).1 = firstConfig cfg) ∨
    (¬cfg.Valid ∧ (edgecoreApplyConfig (edgecoreCreateWithConfig 0) (some cfg)).2 = -1) := by
  cases hval : edgeConfigValidate (some cfg) 96 with
  | error verr =>
    refine .inr ⟨fun hvalid => ?_, by rw [edgecoreApplyConfig_error hval]⟩
    rw [(edgeConfigValidate_ok_iff cfg 96).mpr hvalid] at hval
    cases hval
  | ok u =>
    rw [edgecoreApplyConfig_ok hval]
    exact .inl ⟨(edgeConfigValidate_ok_iff cfg 96).mp hval, rfl, emitEvent_cfg _ _⟩

/-- What a process with this configuration starts with. -/
structure PartsFrom (env : StartEnv χ) (once : Bool) (st : Started) : Prop where
  auth : AuthFrom env.getenv st.cfg st.auth
  plugins : if needPluginHost st.cfg then
      PluginsFrom env st.cfg st.mem ∧ st.plugins = some (enabledHost st.cfg st.store) ∧
        st.store = startStore env st.cfg ∧
        st.serviceKey = if st.cfg.openaiEnabled then startServiceKey env st.cfg else none
    else st.plugins = none ∧ st.mem = openaiData edgeOpenaiProxyConfigDefaults [] ∧ st.store = none ∧
      st.serviceKey = none
  maxAccepts : st.maxAccepts = if once then 1 else 0

theorem toOption_eq_some_iff {ε α : Type*} {r : Except ε α} {a : α} : r.toOption = some a ↔ r = .ok a := by
  cases r <;> simp [Except.toOption]

theorem startParts_eq_some_iff {env : StartEnv χ} {once : Bool} {ac : EdgeConfig} {st : Started} :
    startParts env once ac = some st ↔ st.cfg = ac ∧ PartsFrom env once st := by
  unfold startParts
  rw [Option.bind_eq_bind, Option.bind_eq_some_iff]
  dsimp only
  constructor
  · rintro ⟨auth, hauth, h⟩
    have hauth := edgeAuthCtxFromConfig_eq_ok_iff.mp (toOption_eq_some_iff.mp hauth)
    by_cases hneed : needPluginHost ac
    · rw [if_pos hneed, Option.bind_eq_bind, Option.bind_eq_some_iff] at h
      obtain ⟨⟨host, mem⟩, hplugins, h⟩ := h
      obtain ⟨hfrom, rfl⟩ := startPlugins_eq_some_iff.mp hplugins
      obtain rfl := Option.some.inj h
      exact ⟨rfl, hauth, by rw [if_pos hneed]; exact ⟨hfrom, rfl, rfl, rfl⟩, rfl⟩
    · rw [if_neg hneed] at h
      obtain rfl := Option.some.inj h
      exact ⟨rfl, hauth, by rw [if_neg hneed]; exact ⟨rfl, rfl, rfl, rfl⟩, rfl⟩
  · obtain ⟨cfg, auth, plugins, mem, store, serviceKey, maxAccepts⟩ := st
    rintro ⟨hcfg, hauth, hparts, hmax⟩
    dsimp only at hcfg hauth hparts hmax
    subst hcfg
    refine ⟨auth, toOption_eq_some_iff.mpr (edgeAuthCtxFromConfig_eq_ok_iff.mpr hauth), ?_⟩
    by_cases hneed : needPluginHost cfg
    · rw [if_pos hneed] at hparts ⊢
      obtain ⟨hfrom, rfl, rfl, hkey⟩ := hparts
      rw [hmax, hkey, Option.bind_eq_bind, Option.bind_eq_some_iff]
      exact ⟨_, startPlugins_eq_some_iff.mpr ⟨hfrom, rfl⟩, rfl⟩
    · rw [if_neg hneed] at hparts ⊢
      obtain ⟨rfl, rfl, rfl, rfl⟩ := hparts
      rw [hmax]

/-- A process with what its configuration and its environment give it. -/
structure StartsAs (env : StartEnv χ) (args : StartArgs) (st : Started) : Prop where
  config : ∃ cfg, startConfig env args = some cfg ∧ cfg.Valid ∧ st.cfg = firstConfig cfg
  core : env.createCore
  parts : PartsFrom env args.once st

theorem startsAs_of_mainStart {env : StartEnv χ} {args : StartArgs} {st : Started}
    (h : mainStart env args = some st) : StartsAs env args st := by
  unfold mainStart at h
  rw [Option.bind_eq_bind, Option.bind_eq_some_iff] at h
  obtain ⟨cfg, hcfg, h⟩ := h
  cases hcore : env.createCore with
  | false => simp [hcore] at h
  | true =>
    simp only [hcore, if_true, Option.bind_eq_bind, Option.bind_some] at h
    rcases applyConfig_first cfg with ⟨hvalid, hrc, hfirst⟩ | ⟨-, hrc⟩
    · rw [if_neg (not_not.mpr hrc), hfirst, startParts_eq_some_iff] at h
      exact ⟨⟨cfg, hcfg, hvalid, h.1⟩, hcore, h.2⟩
    · rw [hrc, if_pos (by decide)] at h
      cases h

/-- **When the process starts, and with what**: the core accepts the configuration, and the environment
has the secrets of its mode and what its plugins need. -/
theorem mainStart_eq_some_iff {env : StartEnv χ} {args : StartArgs} {st : Started} :
    mainStart env args = some st ↔ StartsAs env args st := by
  refine ⟨startsAs_of_mainStart, ?_⟩
  rintro ⟨⟨cfg, hcfg, hvalid, hst⟩, hcore, hparts⟩
  unfold mainStart
  rw [Option.bind_eq_bind, Option.bind_eq_some_iff]
  refine ⟨cfg, hcfg, ?_⟩
  simp only [hcore, if_true, Option.bind_eq_bind, Option.bind_some]
  rcases applyConfig_first cfg with ⟨-, hrc, hfirst⟩ | ⟨hinvalid, -⟩
  · rw [if_neg (not_not.mpr hrc), hfirst, startParts_eq_some_iff]
    exact ⟨hst, hparts⟩
  · exact absurd hvalid hinvalid

/-! ## The loop that is entered -/

/-- A new connection's `edge_http1_serve_t`, as `alloc_conn` sets it up; `h1` is its parser. -/
def startServe (st : Started) (h1 : η) : EdgeHttp1Serve η where
  h1 := h1
  method := []
  path := []
  headersDone := false
  done := false
  roots :=
    { spaRoot := if st.cfg.spaRoot ≠ [] then some st.cfg.spaRoot else none
      packagesRoot := if st.cfg.packagesRoot ≠ [] then some st.cfg.packagesRoot else none
      maxFileBytes := st.cfg.staticMaxFileBytes }
  auth := some st.auth
  principal := edgePrincipalClear
  allowBlockingDns := st.cfg.dnsAllowBlocking
  maxUpstreamBody := st.cfg.httpMaxUpstreamBodyBytes
  serviceApiKey := st.serviceKey
  inboundSlot := 0
  acc := []
  contentLength := -1
  bodyOff := none
  wsUpgrade := false
  wsKey := []
  requestId := []

/-- What `edge_iouring_run` finds; `tlsCtx` says whether `edge_tls_ctx_create` takes the certificate, and
`resources` whether the hub, the connections, the socket and the ring can be had. -/
structure RingEnv where
  clock : Clock
  createStore : Bool
  allocNs : Bytes → Bool
  tlsCtx : Bool
  resources : Bool

/-- The process when the loop begins. -/
def ringWorld (env : RingEnv) (st : Started) : ServeWorld BundledPlugin OpenaiData where
  store :=
    let store := match st.store with
      | some store => some store
      | none =>
        if env.createStore then
          some (edgeStateCreateWithConfig ⟨EDGE_STATE_KEYS_DEFAULT, EDGE_STATE_VALUE_DEFAULT⟩)
        else none
    store.map fun store => edgeStateApplyConfig store st.cfg env.allocNs
  hub := some (edgeWsHubCreate 64)
  plugins := st.plugins
  mem := st.mem
  metrics := some (edgeMetricsInit env.clock)

/-- The parameters of the loop. -/
def ringOpts (st : Started) (h1 : η) : LoopOpts η where
  maxAccepts := st.maxAccepts
  ringEntries := 256
  sendCap := sendCap st.cfg
  pqCfg :=
    { edgePqSidecarConfigDefaults with
      enabled := st.cfg.pqproxyEnabled
      metricsUrl :=
        if st.cfg.pqproxyMetricsUrl ≠ [] then snprintf 256 st.cfg.pqproxyMetricsUrl
        else edgePqSidecarConfigDefaults.metricsUrl
      scrapeIntervalMs :=
        if st.cfg.pqproxyScrapeIntervalMs ≠ 0 then st.cfg.pqproxyScrapeIntervalMs else 5000 }
  newServe := startServe st h1

/-- How `edge_iouring_run` comes to its loop: it returns the status 1, or serves TLS, or plain TCP. -/
inductive RingStart (η ω : Type*) where
  | failed
  | tls
  | plain (o : LoopOpts η) (srv : Server η BundledPlugin OpenaiData ω)

/-- `edge_tls_config_enabled`. -/
def edgeTlsConfigEnabled (cert key : Bytes) : Bool := cert ≠ [] && key ≠ []

/-- `edge_iouring_run` up to its loop. With a certificate and a key all connections have an `SSL`, and the
process does not come to the plain loop. -/
def edgeIouringStart (env : RingEnv) (st : Started) (h1 : η) : RingStart η ω :=
  if edgeTlsConfigEnabled st.cfg.tlsCert st.cfg.tlsKey ∧ !env.tlsCtx then .failed
  else if !env.resources then .failed
  else if edgeTlsConfigEnabled st.cfg.tlsCert st.cfg.tlsKey then .tls
  else .plain (ringOpts st h1) (loopStart 64 (ringWorld env st))

theorem edgeIouringStart_plain {env : RingEnv} {st : Started} {h1 : η} {o : LoopOpts η}
    {srv : Server η BundledPlugin OpenaiData ω} (h : edgeIouringStart env st h1 = .plain o srv) :
    ringOpts st h1 = o ∧ loopStart 64 (ringWorld env st) = srv := by
  unfold edgeIouringStart at h
  split_ifs at h
  exact RingStart.plain.inj h

/-! ## What holds at the start -/

/-- A secret that was found, and no longer than `max` bytes. -/
def FoundSecret (key : Bytes) (max : ℕ) : Prop := key ≠ [] ∧ key.length ≤ max

/-- A process that is ready for its configuration. -/
structure ReadyProcess (st : Started) : Prop where
  valid : st.cfg.Valid
  enforced : ∀ {η : Type} (h1 : η), authEnforced (startServe st h1) = true ↔
    st.cfg.authMode = bytes "lab_password" ∨ st.cfg.authMode = bytes "proxy_headers"
  lab : st.auth.mode = .modeLabPassword →
    FoundSecret st.auth.labPassword (EDGE_AUTH_PASSWORD_MAX - 1) ∧
      FoundSecret st.auth.hmacKey EDGE_AUTH_HMAC_KEY_MAX
  proxy : st.auth.mode = .modeProxyHeaders → FoundSecret st.auth.proxyHmacKey EDGE_AUTH_HMAC_KEY_MAX
  plugins : ∀ h path p, st.plugins = some h → edgePluginHostMatch h path = some p →
    p = .openai ∧ st.cfg.openaiEnabled ∧ Covers (bytes "/v1") path ∧
      FoundSecret st.mem.apiKey (EDGE_OPENAI_KEY_MAX - 1)
  serviceKey : ∀ key, st.serviceKey = some key → FoundSecret key 255

theorem FoundSecret.of_secretIn {getenv : Bytes → Option Bytes} {envName key : Bytes} {max : ℕ}
    (h : SecretIn getenv envName max key) : FoundSecret key max := ⟨h.2.1, h.2.2⟩

theorem enforced_of_authFrom {getenv : Bytes → Option Bytes} {st : Started}
    (hauth : AuthFrom getenv st.cfg st.auth) {η : Type} (h1 : η) : authEnforced (startServe st h1) = true ↔
      st.cfg.authMode = bytes "lab_password" ∨ st.cfg.authMode = bytes "proxy_headers" := by
  show edgeAuthModeEnforced st.auth.mode = true ↔ _
  generalize st.auth = auth at hauth
  cases hauth with
  | open_ hmode =>
    refine ⟨fun henf => absurd henf (show ¬edgeAuthModeEnforced .modeOpen = true by decide), ?_⟩
    rcases hmode with hnil | hopen
    · rw [hnil]
      exact fun h => absurd h (by decide)
    · rw [hopen]
      exact fun h => absurd h (by decide)
  | proxy hmode => exact ⟨fun _ => .inr hmode, fun _ => rfl⟩
  | lab hmode => exact ⟨fun _ => .inl hmode, fun _ => rfl⟩

theorem match_enabledHost {ac : EdgeConfig} {store : Option StateStore} {path : Bytes} {p : BundledPlugin}
    (h : edgePluginHostMatch (enabledHost ac store) path = some p) :
    p = .openai ∧ ac.openaiEnabled ∧ Covers (bytes "/v1") path := by
  rw [match_eq_longestRoute] at h
  obtain ⟨⟨pfx, p'⟩, hroute, rfl⟩ := Option.map_eq_some_iff.mp h
  have hmem := List.argmax_mem hroute
  rw [List.mem_reverse, coveringRoutes, List.mem_filter, enabledHost] at hmem
  dsimp only at hmem
  obtain ⟨hmem, hcovers⟩ := hmem
  split_ifs at hmem with henabled
  · obtain ⟨rfl, rfl⟩ := Prod.mk.inj (List.mem_singleton.mp hmem)
    exact ⟨rfl, henabled, routeMatches_iff.mp (of_decide_eq_true hcovers).2⟩
  · exact absurd hmem List.not_mem_nil

theorem held_startServiceKey {env : StartEnv χ} {ac : EdgeConfig} {key : Bytes}
    (h : startServiceKey env ac = some key) : FoundSecret key 255 := by
  unfold startServiceKey at h
  dsimp only at h
  split_ifs at h with hkey
  obtain rfl := Option.some.inj h
  rw [snprintf_of_fits hkey.2]
  exact ⟨hkey.1, Nat.le_of_lt_succ hkey.2⟩

/-- **A process that starts is ready**: whatever its arguments, its file and its environment, it has not
got to the loop without the secrets that its configuration asks for. -/
theorem mainStart_ready {env : StartEnv χ} {args : StartArgs} {st : Started}
    (h : mainStart env args = some st) : ReadyProcess st := by
  obtain ⟨⟨cfg, -, hvalid, hcfg⟩, -, hauth, hparts, -⟩ := startsAs_of_mainStart h
  have hvalid : st.cfg.Valid := by
    rw [hcfg]
    exact ⟨hvalid.listenHost, hvalid.listenPort, hvalid.httpMaxBodyBytes, hvalid.httpMaxPendingOutbound,
      hvalid.httpMaxUpstreamBodyBytes, hvalid.authMode, hvalid.authSessionTtlS, hvalid.authProxyMaxSkewS⟩
  refine ⟨hvalid, enforced_of_authFrom hauth, ?_, ?_, ?_, ?_⟩
  · intro hmode
    generalize st.auth = auth at hauth hmode
    cases hauth with
    | open_ => cases hmode
    | proxy => cases hmode
    | lab _ hpw hkey => exact ⟨.of_secretIn hpw, .of_secretIn hkey⟩
  · intro hmode
    generalize st.auth = auth at hauth hmode
    cases hauth with
    | open_ => cases hmode
    | proxy _ hkey => exact .of_secretIn hkey
    | lab => cases hmode
  · intro host path p hhost hmatch
    by_cases hneed : needPluginHost st.cfg
    · rw [if_pos hneed] at hparts
      obtain ⟨hfrom, hplugins, -, -⟩ := hparts
      obtain rfl := Option.some.inj (hhost.symm.trans hplugins)
      obtain ⟨hp, henabled, hcovers⟩ := match_enabledHost hmatch
      have hproxy := hfrom.openai
      rw [if_pos henabled] at hproxy
      obtain ⟨-, key, hkey, hmem⟩ := hproxy
      refine ⟨hp, henabled, hcovers, ?_⟩
      rw [hmem]
      exact .of_secretIn hkey
    · rw [if_neg hneed] at hparts
      rw [hparts.1] at hhost
      cases hhost
  · intro key hkey
    by_cases hneed : needPluginHost st.cfg
    · rw [if_pos hneed] at hparts
      obtain ⟨-, -, -, hservice⟩ := hparts
      rw [hservice] at hkey
      split_ifs at hkey
      exact held_startServiceKey hkey
    · rw [if_neg hneed] at hparts
      rw [hparts.2.2.2] at hkey
      cases hkey

theorem keepsHead_session (message : String) : KeepsHead (sessionVtbl message) where
  onHttp := by
    rintro f hf
    cases hf
  onHttpComplete := by
    rintro f hf
    cases hf

/-- The bundled plugins leave clean heads. -/
theorem keepsHeads_bundled (now : ℤ) (alloc : Bool) : KeepsHeads (bundledVtbl now alloc) := by
  rintro p vt hvt
  cases p with
  | openai => exact Option.some.inj hvt ▸ keepsHead_openai now alloc
  | slack => exact Option.some.inj hvt ▸ keepsHead_session _
  | teams => exact Option.some.inj hvt ▸ keepsHead_session _

section Bundled

variable {η : Type*} {env : ServeEnv η BundledPlugin OpenaiData} {s : EdgeHttp1Serve η}
  {w : ServeWorld BundledPlugin OpenaiData} {data : Bytes} {outCap : ℕ} {now : ℤ} {alloc : Bool}

/-- With them every answer is one message. -/
theorem oneMessage_bundled (hvtbl : env.vtbl = bundledVtbl now alloc)
    (hret : (edgeHttp1ServeFeed env s w data outCap).ret = 1) :
    ∃ cookies, OneMessage cookies (edgeHttp1ServeFeed env s w data outCap).out :=
  oneMessage_feed (hvtbl ▸ keepsHeads_bundled now alloc) hret

/-- With them a cookie is the answer to a login. -/
theorem loggedIn_bundled {m : HttpText} {cookie : Bytes} (hvtbl : env.vtbl = bundledVtbl now alloc)
    (hret : (edgeHttp1ServeFeed env s w data outCap).ret = 1)
    (hread : readMessage (edgeHttp1ServeFeed env s w data outCap).out = some (m, []))
    (hcookie : cookie ∈ setCookies m) :
    ∃ ctx cookieVal p, LoggedIn env.clock (parsedServe env s w.hub data) ctx cookieVal p ∧
      cookie = cookieText cookieVal (sessionTtl ctx) :=
  loggedIn_of_setCookie (hvtbl ▸ keepsHeads_bundled now alloc) hret hread hcookie

end Bundled

/-! ## A lab process -/

/-- A parser that finds the mode of the lab and the proxy in every file. -/
def labYaml : YamlLib Unit where
  create := some ()
  feedInput _ yaml := (yaml.length, ())
  events _ := ([], ())
  lookupScalar _ path :=
    if path = bytes "auth.mode" then some (bytes "lab_password", 12)
    else if path = bytes "plugins.openai_proxy.enabled" then some (bytes "true", 4)
    else none

/-- The environment of a lab: its secrets, and enough of everything. -/
def labStartEnv : StartEnv Unit where
  reload := { lib := labYaml, openFile := fun _ => some [35], alloc := true }
  getenv name :=
    if name = bytes "EDGEHOST_LAB_PASSWORD" then some (bytes "s3cret")
    else if name = bytes "EDGEHOST_SESSION_HMAC" then some (bytes "hmac-key-lab")
    else if name = bytes "OPENAI_API_KEY" then some (bytes "key")
    else none
  createCore := true
  createStore := true
  allocNs _ := true
  createHost := true
  initOpenai := true
  initSlack := true
  initTeams := true

def labArgs : StartArgs := ⟨some (bytes "lab.yaml"), none, 8443, false⟩

theorem labStart_mode : (mainStart labStartEnv labArgs).map (fun st => (st.auth.mode, st.cfg.openaiEnabled))
    = some (.modeLabPassword, true) := by
  decide +kernel

/-- The lab has no certificate. -/
theorem labStart_tls : (mainStart labStartEnv labArgs).map
    (fun st => edgeTlsConfigEnabled st.cfg.tlsCert st.cfg.tlsKey) = some false := by
  decide +kernel

theorem mainStart_ready_lab : ∃ st, mainStart labStartEnv labArgs = some st ∧
    st.auth.mode = .modeLabPassword ∧ st.cfg.openaiEnabled ∧ ReadyProcess st := by
  obtain ⟨st, hst, hmode⟩ := Option.map_eq_some_iff.mp labStart_mode
  obtain ⟨hmode, henabled⟩ := Prod.mk.inj hmode
  exact ⟨st, hst, hmode, henabled, mainStart_ready hst⟩

end Edgehost
