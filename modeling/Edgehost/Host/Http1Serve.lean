import Edgehost.Core.AuthRbac
import Edgehost.Host.NotifyApply
import Edgehost.Host.OutboundHttp
import Edgehost.Host.StaticFiles
import Edgehost.Host.WsAccept

/-!
# Serving HTTP/1 (`edge_http1_serve.c`)

Parsing, routing and answering one request of a connection: login, the plugin routes, the stream,
the state API, health, packages and the SPA. The HTTP parser is outside of the repository and so a
parameter: the events that it yields for fed bytes, each with the parser's state behind it, and what
it finds for a header name.

The store, the hub, the plugin host and the counters belong to the process. They are the `ServeWorld`
that a call takes and leaves; the plugin host works on the same store as the connection.
-/

namespace Edgehost

/-! ## The connection and its surroundings -/

def EDGE_HTTP_ACC_MAX : ℕ := EDGE_STATE_VALUE_MAX + 4096
def EDGE_AUTH_ROLES_CSV_MAX : ℕ := 128
def EDGE_AUTH_PROXY_SIG_MAX : ℕ := 64

/-- An event of the parser. -/
inductive Http1Event where
  | error
  | requestLine (method path : Bytes)
  | headersComplete
  | bodyChunk
  deriving DecidableEq

/-- The parser. -/
structure Http1Parser (η : Type*) where
  feedInput : η → Bytes → List (Http1Event × η) × η
  getHeader : η → Bytes → ℕ → Option Bytes
  isWebsocketUpgrade : η → Bool

/-- `edge_metrics_t`. -/
structure EdgeMetrics where
  startedAt : ℤ
  accepts : UInt64
  requests : UInt64
  responses2xx : UInt64
  responses4xx : UInt64
  bytesIn : UInt64
  bytesOut : UInt64
  activeConns : UInt64
  rejects : UInt64
  deriving DecidableEq

/-- `edge_http1_docroot_t`. -/
structure EdgeHttp1Docroot where
  spaRoot : Option Bytes
  packagesRoot : Option Bytes
  maxFileBytes : ℕ
  deriving DecidableEq

/-- `struct edge_http1_serve`, less the pointers to what the process owns; `bodyOff` is `none` while
`have_body_off` is 0. -/
structure EdgeHttp1Serve (η : Type*) where
  h1 : η
  method : Bytes
  path : Bytes
  headersDone : Bool
  done : Bool
  roots : EdgeHttp1Docroot
  auth : Option EdgeAuthCtx
  principal : EdgePrincipal
  allowBlockingDns : Bool
  maxUpstreamBody : ℕ
  serviceApiKey : Option Bytes
  inboundSlot : UInt32
  acc : Bytes
  contentLength : ℤ
  bodyOff : Option ℕ
  wsUpgrade : Bool
  wsKey : Bytes
  requestId : Bytes

/-- What belongs to the process. -/
structure ServeWorld (P υ : Type*) where
  store : Option StateStore
  hub : Option EdgeWsHub
  plugins : Option (EdgePluginHost P)
  mem : υ
  metrics : Option EdgeMetrics

/-- The parameters of a call: the parser, the plugins' code, and what the system does.
`overrunPrincipal` is what a request goes on with when the roles of its cookie overran their buffer: C says
nothing about it. -/
structure ServeEnv (η P υ : Type*) where
  parser : Http1Parser η
  vtbl : P → Option (EdgePluginVtbl υ)
  net : Network
  files : Files
  clock : Clock
  hubAlloc : ℕ → Bool
  allocPluginBody : Bool
  allocUpstream : Bool
  allocStatic : Bool
  overrunPrincipal : EdgePrincipal

variable {η P υ : Type*}

/-- What a call leaves: the return value, and for 1 the response. -/
structure Served (η P υ : Type*) where
  serve : EdgeHttp1Serve η
  world : ServeWorld P υ
  ret : ℤ
  out : Bytes

/-! ## Responses -/

/-- `note_response`. -/
def noteResponse (m : Option EdgeMetrics) (status : ℤ) : Option EdgeMetrics :=
  m.map fun m =>
    let m := { m with requests := m.requests + 1 }
    if status ≥ 200 ∧ status < 300 then { m with responses2xx := m.responses2xx + 1 }
    else if status ≥ 400 ∧ status < 500 then { m with responses4xx := m.responses4xx + 1 }
    else m

/-- The header block of a response. -/
def responseHead (status : ℤ) (reason ctype extra : Bytes) (bodyLen : ℕ) : Bytes :=
  bytes "HTTP/1.1 " ++ decimalInt status ++ [32] ++ reason ++ crlf ++ bytes "Content-Type: " ++ ctype
    ++ crlf ++ bytes "Content-Length: " ++ decimal bodyLen ++ crlf ++ extra
    ++ bytes "Connection: close" ++ crlf2

/-- `build_response_ex`. -/
def buildResponseEx (outCap : ℕ) (status : ℤ) (reason ctype extra body : Bytes) : Option Bytes :=
  if outCap < 64 then none
  else
    let head := responseHead status reason ctype extra body.length
    if head.length ≥ outCap then none
    else if body.length > 0 ∧ head.length + body.length ≥ outCap then none
    else some (head ++ body)

/-- `build_response`. -/
def buildResponse (outCap : ℕ) (status : ℤ) (reason ctype body : Bytes) : Option Bytes :=
  buildResponseEx outCap status reason ctype [] body

/-- Answer with a response and count it, or fail. -/
def answerEx (s : EdgeHttp1Serve η) (w : ServeWorld P υ) (outCap : ℕ) (status : ℤ)
    (reason ctype extra body : Bytes) : Served η P υ :=
  match buildResponseEx outCap status reason ctype extra body with
  | none => ⟨s, w, -1, []⟩
  | some out => ⟨s, { w with metrics := noteResponse w.metrics status }, 1, out⟩

/-- Answer without extra headers. -/
def answer (s : EdgeHttp1Serve η) (w : ServeWorld P υ) (outCap : ℕ) (status : ℤ)
    (reason ctype body : Bytes) : Served η P υ :=
  answerEx s w outCap status reason ctype [] body

def jsonType : Bytes := bytes "application/json"

/-- The body of an error. -/
def errorBody (name : Bytes) : Bytes := bytes "\x7b\"error\":" ++ quoted name ++ bytes "\x7d"

/-- The first `len` bytes of an error literal: the source counts them by hand, and behind the text of
the literal stands its NUL. -/
def countedError (name : Bytes) (len : ℕ) : Bytes := (errorBody name ++ [0]).take len

/-- The answer to a method that a route does not take. -/
def answerMethod (s : EdgeHttp1Serve η) (w : ServeWorld P υ) (outCap : ℕ) : Served η P υ :=
  answer s w outCap 405 (bytes "Method Not Allowed") jsonType (errorBody (bytes "METHOD"))

/-! ## Paths -/

/-- A path that is a route, or goes on with a query. -/
def isRoute (route path : Bytes) : Bool :=
  path = route || (route ++ [charByte '?']).isPrefixOf path

/-- `path_is_health`. -/
def pathIsHealth (path : Bytes) : Bool := isRoute (bytes "/health") path

/-- `path_is_packages`: the path within the packages. -/
def pathIsPackages (path : Bytes) : Option Bytes :=
  if (bytes "/packages/").isPrefixOf path then some (path.drop 9)
  else if path = bytes "/packages" then some (bytes "/")
  else none

/-- `path_is_lab_login`. -/
def pathIsLabLogin (path : Bytes) : Bool := isRoute (bytes "/auth/lab-login") path

/-- `path_is_auth_me`. -/
def pathIsAuthMe (path : Bytes) : Bool := isRoute (bytes "/auth/me") path

/-- A path of the plugins. -/
def pathIsV1 (path : Bytes) : Bool := (bytes "/v1/").isPrefixOf path || path = bytes "/v1"

/-- What a path of the state API names. -/
structure StatePath where
  ns : Bytes
  key : Bytes
  pfx : Bytes
  isList : Bool
  deriving DecidableEq

/-- The prefix that a query asks for. -/
def queryPrefix (path : Bytes) : Bytes :=
  match (strchr path (charByte '?')).bind (strstr · (bytes "prefix=")) with
  | some pr => ((pr.drop 7).takeWhile (· ≠ charByte '&')).take (EDGE_STATE_KEY_MAX - 1)
  | none => []

/-- `path_is_state`. -/
def pathIsState (path : Bytes) : Option StatePath :=
  if !(bytes "/api/v1/state/").isPrefixOf path then none
  else
    let p := (path.drop 14).takeWhile (· ≠ charByte '?')
    if p.length ≥ 512 then none
    else
      let ns := p.takeWhile (· ≠ slash)
      if ns = [] ∨ ns.length ≥ 64 then none
      else
        match strchr p slash with
        | none => some { ns, key := [], pfx := queryPrefix (path.drop 14), isList := true }
        | some k =>
          let key := k.drop 1
          if key = [] ∨ key.length ≥ EDGE_STATE_KEY_MAX then none
          else some { ns, key, pfx := [], isList := false }

/-! ## Access -/

/-- `auth_enforced`. -/
def authEnforced (s : EdgeHttp1Serve η) : Bool :=
  match s.auth with
  | some auth => edgeAuthModeEnforced auth.mode
  | none => false

/-- `deny_unauthorized`. -/
def denyUnauthorized (s : EdgeHttp1Serve η) (w : ServeWorld P υ) (outCap : ℕ) : Served η P υ :=
  answer s w outCap 401 (bytes "Unauthorized") jsonType (errorBody (bytes "UNAUTHORIZED"))

/-- `deny_forbidden`. -/
def denyForbidden (s : EdgeHttp1Serve η) (w : ServeWorld P υ) (outCap : ℕ) : Served η P υ :=
  answer s w outCap 403 (bytes "Forbidden") jsonType (errorBody (bytes "FORBIDDEN"))

/-- `require_rbac`: the denial, or `none` for access. -/
def requireRbac (s : EdgeHttp1Serve η) (w : ServeWorld P υ) (outCap : ℕ) (res : EdgeAuthResource) :
    Option (Served η P υ) :=
  if !authEnforced s || res = .resNone then none
  else if !s.principal.authenticated then some (denyUnauthorized s w outCap)
  else if edgeAuthRbacCheck (some s.principal) res ≠ .allow then some (denyForbidden s w outCap)
  else none

/-! ## Bodies -/

/-- The end of the headers in the bytes of a request. -/
def findBodyOff : Bytes → Option ℕ
  | [] => none
  | c :: s =>
    if (c :: s).length < 4 then none
    else if crlf2.isPrefixOf (c :: s) then some 4
    else if [10, 10].isPrefixOf (c :: s) then some 2
    else (findBodyOff s).map (· + 1)

/-- `mark_body_off`. -/
def markBodyOff (s : EdgeHttp1Serve η) : EdgeHttp1Serve η :=
  match findBodyOff s.acc with
  | some off => { s with bodyOff := some off }
  | none => s

/-- Look for the body, if it has not been found. -/
def locateBody (s : EdgeHttp1Serve η) : EdgeHttp1Serve η :=
  match s.bodyOff with
  | some _ => s
  | none => markBodyOff s

/-- `wait_full_body`. -/
def waitFullBody (s : EdgeHttp1Serve η) : EdgeHttp1Serve η × Bool :=
  if s.contentLength ≤ 0 then (s, true)
  else
    let s := locateBody s
    let got : ℕ := match s.bodyOff with
      | some off => s.acc.length - off
      | none => 0
    (s, (got : ℤ) ≥ s.contentLength)

/-- What of the bytes of a request is its body: no more than its length says. -/
def bodyBytes (s : EdgeHttp1Serve η) : Bytes :=
  match s.bodyOff with
  | none => []
  | some off =>
    let body := s.acc.drop off
    if s.contentLength ≥ 0 ∧ (body.length : ℤ) > s.contentLength then
      body.take s.contentLength.toNat
    else body

/-- `get_body`. -/
def getBody (s : EdgeHttp1Serve η) : EdgeHttp1Serve η × Bytes :=
  (locateBody s, bodyBytes (locateBody s))

/-! ## The routes -/

/-- `err_to_http`: status, reason and body. -/
def errToHttp (e : EdgeStateErr) : ℤ × Bytes × Bytes :=
  match e with
  | .ok => (200, bytes "OK", bytes "\x7b\"ok\":true\x7d")
  | .notFound => (404, bytes "Not Found", errorBody (bytes "NOT_FOUND"))
  | .nsDisabled => (403, bytes "Forbidden", errorBody (bytes "NS_DISABLED"))
  | .tooLarge => (413, bytes "Payload Too Large", errorBody (bytes "TOO_LARGE"))
  | .nsFull => (507, bytes "Insufficient Storage", errorBody (bytes "NS_FULL"))
  | .badKey => (400, bytes "Bad Request", errorBody (edgeStateErrName .badKey))
  | .badJson => (400, bytes "Bad Request", errorBody (edgeStateErrName .badJson))
  | .badNs => (400, bytes "Bad Request", errorBody (edgeStateErrName .badNs))
  | _ => (500, bytes "Internal Server Error", errorBody (bytes "INTERNAL"))

/-- Answer with an error of the store. -/
def answerErr (s : EdgeHttp1Serve η) (w : ServeWorld P υ) (outCap : ℕ) (e : EdgeStateErr) :
    Served η P υ :=
  answer s w outCap (errToHttp e).1 (errToHttp e).2.1 jsonType (errToHttp e).2.2

/-- `try_static`: the response. -/
def tryStatic (env : ServeEnv η P υ) (root : Option Bytes) (urlPath : Bytes) (maxFile outCap : ℕ) :
    Option Bytes :=
  match root with
  | none => none
  | some root =>
    if root = [] ∨ outCap ≤ 257 then none
    else
      let maxFile := if maxFile = 0 then EDGE_STATIC_MAX_FILE else maxFile
      let bodyCap := if outCap - 256 > maxFile then maxFile else outCap - 256
      match edgeStaticLoad env.files root urlPath bodyCap 96 with
      | none => none
      | some (body, ctype) =>
        if !env.allocStatic ∧ body.length > 0 then none
        else buildResponse outCap 200 (bytes "OK") ctype body

/-- `notify_state_changed`. -/
def notifyStateChanged (env : ServeEnv η P υ) (s : EdgeHttp1Serve η) (w : ServeWorld P υ)
    (ns key op : Bytes) (value : Option Bytes) : ServeWorld P υ :=
  { w with hub := broadcastTo w.hub env.hubAlloc ns key op value s.requestId }

/-- The cookie header of a login. -/
def setCookieLine (cookieVal : Bytes) (ttl : UInt32) : Bytes :=
  bytes "Set-Cookie: " ++ EDGE_AUTH_COOKIE_NAME ++ bytes "=" ++ cookieVal
    ++ bytes "; HttpOnly; Path=/; SameSite=Lax; Max-Age=" ++ decimal ttl.toNat ++ crlf

/-- The principal as JSON. -/
def principalJson (front sub roles : Bytes) (exp : Int64) : Bytes :=
  bytes "\x7b" ++ front ++ bytes "\"sub\":" ++ quoted sub ++ bytes ",\"roles\":[" ++ roles
    ++ bytes "],\"exp\":" ++ decimalInt exp.toInt ++ bytes "\x7d"

/-- `dispatch_lab_login`; `none` when the path is another one. -/
def dispatchLabLogin (env : ServeEnv η P υ) (s : EdgeHttp1Serve η) (w : ServeWorld P υ)
    (outCap : ℕ) : Option (Served η P υ) :=
  if !pathIsLabLogin s.path then none
  else if s.method ≠ bytes "POST" then some (answerMethod s w outCap)
  else
    match s.auth.filter fun auth => auth.mode = .modeLabPassword with
    | none =>
      some (answer s w outCap 503 (bytes "Service Unavailable") jsonType
        (countedError (bytes "AUTH_DISABLED") 26))
    | some auth =>
      let (s, full) := waitFullBody s
      if !full then none
      else
        let (s, body) := getBody s
        match edgeAuthParseLoginPassword body EDGE_AUTH_PASSWORD_MAX with
        | none =>
          some (answer s w outCap 400 (bytes "Bad Request") jsonType
            (countedError (bytes "BAD_BODY") 19))
        | some password =>
          if !edgeAuthPasswordOk auth password then
            some (answer s w outCap 401 (bytes "Unauthorized") jsonType
              (errorBody (bytes "BAD_PASSWORD")))
          else
            match edgeAuthSessionIssue (some auth) env.clock (some (bytes "lab")) EdgeRole.employee.bit
                EDGE_AUTH_COOKIE_MAX with
            | none =>
              some (answer s w outCap 500 (bytes "Internal Server Error") jsonType
                (errorBody (bytes "SESSION")))
            | some (cookieVal, issued) =>
              let s := { s with principal := issued }
              let cookie := setCookieLine cookieVal (sessionTtl auth)
              let json := principalJson (bytes "\"ok\":true,") issued.sub
                (quoted (bytes "employee")) issued.exp
              if cookie.length ≥ EDGE_AUTH_COOKIE_MAX + 128 ∨ json.length ≥ 256 then
                some ⟨s, w, -1, []⟩
              else some (answerEx s w outCap 200 (bytes "OK") jsonType cookie json)

/-- `dispatch_auth_me`. -/
def dispatchAuthMe (s : EdgeHttp1Serve η) (w : ServeWorld P υ) (outCap : ℕ) :
    Option (Served η P υ) :=
  if !pathIsAuthMe s.path then none
  else if s.method ≠ bytes "GET" then some (answerMethod s w outCap)
  else if !s.principal.authenticated then some (denyUnauthorized s w outCap)
  else
    let roles := if edgeAuthRoleHas s.principal.roles .employeeAdmin then
        quoted (bytes "employee") ++ [comma] ++ quoted (bytes "employee_admin")
      else quoted (bytes "employee")
    let json := principalJson [] s.principal.sub roles s.principal.exp
    if json.length ≥ 256 then some ⟨s, w, -1, []⟩
    else some (answer s w outCap 200 (bytes "OK") jsonType json)

/-- `dispatch_stream`, for a path of the stream. -/
def dispatchStream (env : ServeEnv η P υ) (s : EdgeHttp1Serve η) (w : ServeWorld P υ)
    (outCap : ℕ) : Served η P υ :=
  match requireRbac s w outCap .resWsStream with
  | some denied => denied
  | none =>
    if s.method ≠ bytes "GET" then answerMethod s w outCap
    else if !env.parser.isWebsocketUpgrade s.h1 || s.wsKey = [] then
      answer s w outCap 400 (bytes "Bad Request") jsonType
        (countedError (bytes "WS_UPGRADE_REQUIRED") 32)
    else
      match edgeWsBuild101 s.wsKey outCap with
      | none =>
        answer s w outCap 500 (bytes "Internal Server Error") jsonType
          (countedError (bytes "WS_ACCEPT") 20)
      | some out =>
        let metrics := w.metrics.map fun m =>
          { m with requests := m.requests + 1, responses2xx := m.responses2xx + 1 }
        ⟨{ s with wsUpgrade := true }, { w with metrics }, 1, out⟩

/-- The keys of a listing, as long as its buffer of 8192 bytes has room. -/
def listKeys : Bytes → List Bytes → Bytes
  | acc, [] => acc
  | acc, key :: keys =>
    if acc.length + EDGE_STATE_KEY_MAX + 4 < 8192 then
      listKeys (acc ++ [comma] ++ quoted key) keys
    else acc

/-- The body of a listing. -/
def listBody : List Bytes → Bytes
  | [] => bytes "\x7b\"keys\":[]\x7d"
  | key :: keys =>
    let text := listKeys (bytes "\x7b\"keys\":[" ++ quoted key) keys
    if text.length + 2 < 8192 then text ++ bytes "]\x7d" else text

/-- The GET branch of `dispatch_state`. -/
def stateGetRoute (s : EdgeHttp1Serve η) (w : ServeWorld P υ) (outCap : ℕ) (st : StateStore)
    (p : StatePath) : Served η P υ :=
  if p.isList then
    match edgeStateList st p.ns p.pfx 64 with
    | none => answerErr s w outCap (if edgeStateNsEnabled st p.ns then .badNs else .nsDisabled)
    | some keys => answer s w outCap 200 (bytes "OK") jsonType (listBody keys)
  else
    match edgeStateGet st p.ns p.key (EDGE_STATE_VALUE_MAX + 1) with
    | .error e => answerErr s w outCap e
    | .ok (value, _) => answer s w outCap 200 (bytes "OK") jsonType value

/-- The answer to a change, given what the store made of it: an accepted one is announced. -/
def answerChange (env : ServeEnv η P υ) (s : EdgeHttp1Serve η) (w : ServeWorld P υ) (outCap : ℕ)
    (p : StatePath) (op : Bytes) (value : Option Bytes) (r : StateStore × EdgeStateErr) :
    Served η P υ :=
  let w := { w with store := some r.1 }
  if r.2 = .ok then
    answer s (notifyStateChanged env s w p.ns p.key op value) outCap 204 (bytes "No Content")
      jsonType []
  else answerErr s w outCap r.2

/-- The PUT branch of `dispatch_state`. -/
def statePutRoute (env : ServeEnv η P υ) (s : EdgeHttp1Serve η) (w : ServeWorld P υ) (outCap : ℕ)
    (st : StateStore) (p : StatePath) : Option (Served η P υ) :=
  match s.bodyOff with
  | none => none
  | some off =>
    if s.contentLength ≥ 0 ∧ ((s.acc.drop off).length : ℤ) < s.contentLength then none
    else
      some (answerChange env s w outCap p (bytes "put") (some (bodyBytes s))
        (edgeStatePut st p.ns p.key (bodyBytes s)))

/-- The DELETE branch of `dispatch_state`. -/
def stateDeleteRoute (env : ServeEnv η P υ) (s : EdgeHttp1Serve η) (w : ServeWorld P υ)
    (outCap : ℕ) (st : StateStore) (p : StatePath) : Served η P υ :=
  answerChange env s w outCap p (bytes "delete") none (edgeStateDelete st p.ns p.key)

/-- `dispatch_state`; `none` for another path, or when the body is still to come. -/
def dispatchState (env : ServeEnv η P υ) (s : EdgeHttp1Serve η) (w : ServeWorld P υ) (outCap : ℕ) :
    Option (Served η P υ) :=
  match pathIsState s.path with
  | none => none
  | some p =>
    match requireRbac s w outCap (edgeAuthClassify s.method s.path p.isList) with
    | some denied => some denied
    | none =>
      match w.store with
      | none =>
        some (answer s w outCap 503 (bytes "Service Unavailable") jsonType
          (countedError (bytes "STATE_UNAVAILABLE") 30))
      | some st =>
        if s.method = bytes "GET" then some (stateGetRoute s w outCap st p)
        else if s.method = bytes "PUT" then
          if p.isList ∨ p.key = [] then
            some (answer s w outCap 400 (bytes "Bad Request") jsonType
              (countedError (bytes "BAD_KEY") 18))
          else statePutRoute env s w outCap st p
        else if s.method = bytes "DELETE" then
          if p.isList ∨ p.key = [] then
            some (answer s w outCap 400 (bytes "Bad Request") jsonType
              (countedError (bytes "BAD_KEY") 18))
          else some (stateDeleteRoute env s w outCap st p)
        else some (answerMethod s w outCap)

/-- The ways in which a request for a state path is answered. -/
inductive StateOutcome (env : ServeEnv η P υ) (s : EdgeHttp1Serve η) (w : ServeWorld P υ) (outCap : ℕ)
    (p : StatePath) : Option (Served η P υ) → Prop
  | denied {r : Served η P υ}
    (hrbac : requireRbac s w outCap (edgeAuthClassify s.method s.path p.isList) = some r) :
    StateOutcome env s w outCap p (some r)
  | unavailable (hrbac : requireRbac s w outCap (edgeAuthClassify s.method s.path p.isList) = none)
    (hst : w.store = none) :
    StateOutcome env s w outCap p (some (answer s w outCap 503 (bytes "Service Unavailable") jsonType
      (countedError (bytes "STATE_UNAVAILABLE") 30)))
  | get {st : StateStore}
    (hrbac : requireRbac s w outCap (edgeAuthClassify s.method s.path p.isList) = none)
    (hst : w.store = some st) (hget : s.method = bytes "GET") :
    StateOutcome env s w outCap p (some (stateGetRoute s w outCap st p))
  | badKey {st : StateStore}
    (hrbac : requireRbac s w outCap (edgeAuthClassify s.method s.path p.isList) = none)
    (hst : w.store = some st) (hmethod : s.method = bytes "PUT" ∨ s.method = bytes "DELETE")
    (hkey : p.isList ∨ p.key = []) :
    StateOutcome env s w outCap p (some (answer s w outCap 400 (bytes "Bad Request") jsonType
      (countedError (bytes "BAD_KEY") 18)))
  | put {st : StateStore}
    (hrbac : requireRbac s w outCap (edgeAuthClassify s.method s.path p.isList) = none)
    (hst : w.store = some st) (hput : s.method = bytes "PUT") (hkey : ¬(p.isList ∨ p.key = [])) :
    StateOutcome env s w outCap p (statePutRoute env s w outCap st p)
  | delete {st : StateStore}
    (hrbac : requireRbac s w outCap (edgeAuthClassify s.method s.path p.isList) = none)
    (hst : w.store = some st) (hdelete : s.method = bytes "DELETE")
    (hkey : ¬(p.isList ∨ p.key = [])) :
    StateOutcome env s w outCap p (some (stateDeleteRoute env s w outCap st p))
  | method {st : StateStore}
    (hrbac : requireRbac s w outCap (edgeAuthClassify s.method s.path p.isList) = none)
    (hst : w.store = some st) (hget : s.method ≠ bytes "GET") (hput : s.method ≠ bytes "PUT")
    (hdelete : s.method ≠ bytes "DELETE") :
    StateOutcome env s w outCap p (some (answerMethod s w outCap))

/-- **What `dispatch_state` can do.** -/
theorem dispatchState_outcome (env : ServeEnv η P υ) {s : EdgeHttp1Serve η} (w : ServeWorld P υ)
    (outCap : ℕ) {p : StatePath} (hpath : pathIsState s.path = some p) :
    StateOutcome env s w outCap p (dispatchState env s w outCap) := by
  rw [dispatchState, hpath]
  dsimp only
  cases hrbac : requireRbac s w outCap (edgeAuthClassify s.method s.path p.isList) with
  | some denied => exact .denied hrbac
  | none =>
    cases hst : w.store with
    | none => exact .unavailable hrbac hst
    | some st =>
      dsimp only
      split_ifs with hget hput hkey hdelete hkey
      · exact .get hrbac hst hget
      · exact .badKey hrbac hst (.inl hput) hkey
      · exact .put hrbac hst hput hkey
      · exact .badKey hrbac hst (.inr hdelete) hkey
      · exact .delete hrbac hst hdelete hkey
      · exact .method hrbac hst hget hput hdelete

/-- The principal of requests to plugins where nothing is enforced. -/
def labPrincipal : EdgePrincipal :=
  { edgePrincipalClear with
    authenticated := true
    sub := snprintf EDGE_AUTH_SUB_MAX (bytes "lab")
    roles := EdgeRole.employee.bit }

/-- The plugin host over the store of the process. -/
def hostOver (w : ServeWorld P υ) (h : EdgePluginHost P) : EdgePluginHost P :=
  match w.store with
  | none => h
  | some st => { h with state := h.state.map fun _ => st }

/-- The world once the plugin host has run. -/
def afterHost (w : ServeWorld P υ) (r : HostResult P υ) : ServeWorld P υ :=
  { w with
    store := w.store.map fun st => r.host.state.getD st
    plugins := some r.host
    mem := r.mem }

/-- The size of the body buffer that a plugin gets. -/
def pluginBodyCap (maxUpstreamBody : ℕ) : ℕ :=
  let pcap := if maxUpstreamBody ≠ 0 then maxUpstreamBody else 256 * 1024
  if pcap < 65536 then 65536 else pcap

/-- The call of a plugin, completed if it is pending, with a status in every case. -/
def runPlugin (env : ServeEnv η P υ) (s : EdgeHttp1Serve η) (w : ServeWorld P υ)
    (h : EdgePluginHost P) (p : P) : HostResult P υ :=
  let req : EdgeHttpReq :=
    { method := s.method, path := s.path, query := none, headers := [], body := bodyBytes s
      principal := some s.principal, inboundSlot := s.inboundSlot }
  let pcap := pluginBodyCap s.maxUpstreamBody
  let res : EdgeHttpRes :=
    { status := 0, reason := [], contentType := [], body := some (List.replicate pcap 0), bodyLen := 0
      bodyCap := pcap }
  let r := edgePluginHostDispatchHttp env.vtbl (hostOver w h) w.mem (some p) req res
  let r :=
    if r.status = EDGE_PLUGIN_PENDING then
      edgePluginHostFinishPendingSync env.vtbl env.net env.allocUpstream r.host r.mem
        s.allowBlockingDns s.maxUpstreamBody r.res
    else r
  if r.res.status = 0 then
    { r with res := { r.res with status := if r.status = EDGE_PLUGIN_OK then 200 else 500 } }
  else r

/-- The body that a plugin leaves. -/
def EdgeHttpRes.text (res : EdgeHttpRes) : Bytes := (res.body.getD []).take res.bodyLen

/-- The response that a plugin's result asks for. -/
def answerPlugin (s : EdgeHttp1Serve η) (w : ServeWorld P υ) (outCap : ℕ) (res : EdgeHttpRes) :
    Served η P υ :=
  answer s w outCap res.status (if res.reason = [] then bytes "OK" else res.reason)
    (if res.contentType = [] then jsonType else res.contentType) res.text

/-- The `/v1` route of `dispatch`. -/
def dispatchV1 (env : ServeEnv η P υ) (s : EdgeHttp1Serve η) (w : ServeWorld P υ) (outCap : ℕ)
    (h : EdgePluginHost P) : Served η P υ :=
  match edgePluginHostMatch h s.path with
  | none =>
    answer s w outCap 404 (bytes "Not Found") jsonType (countedError (bytes "NOT_FOUND") 20)
  | some p =>
    let s := if authEnforced s then s else { s with principal := labPrincipal }
    match requireRbac s w outCap .resOpenai with
    | some denied => denied
    | none =>
      if !env.allocPluginBody then ⟨s, w, -1, []⟩
      else
        let s := locateBody s
        let r := runPlugin env s w h p
        answerPlugin s (afterHost w r) outCap r.res

/-- `edge_metrics_init`. -/
def edgeMetricsInit (clock : Clock) : EdgeMetrics where
  startedAt := clock.sec.toInt
  accepts := 0
  requests := 0
  responses2xx := 0
  responses4xx := 0
  bytesIn := 0
  bytesOut := 0
  activeConns := 0
  rejects := 0

/-- `edge_metrics_format_health_json`. -/
def edgeMetricsFormatHealthJson (m : EdgeMetrics) (clock : Clock) (buflen : ℕ) : Option Bytes :=
  let now := clock.sec.toInt
  let uptime := if now ≥ m.startedAt then now - m.startedAt else 0
  let text := bytes "\x7b\"status\":\"ok\",\"uptime_s\":" ++ decimalInt uptime
    ++ bytes ",\"accepts\":" ++ decimal m.accepts.toNat
    ++ bytes ",\"requests\":" ++ decimal m.requests.toNat
    ++ bytes ",\"responses_2xx\":" ++ decimal m.responses2xx.toNat
    ++ bytes ",\"responses_4xx\":" ++ decimal m.responses4xx.toNat
    ++ bytes ",\"bytes_in\":" ++ decimal m.bytesIn.toNat
    ++ bytes ",\"bytes_out\":" ++ decimal m.bytesOut.toNat
    ++ bytes ",\"active_conns\":" ++ decimal m.activeConns.toNat
    ++ bytes ",\"rejects\":" ++ decimal m.rejects.toNat ++ bytes "\x7d"
  if buflen < 32 ∨ text.length ≥ buflen then none else some text

/-- The `/health` route of `dispatch`. -/
def dispatchHealth (env : ServeEnv η P υ) (s : EdgeHttp1Serve η) (w : ServeWorld P υ) (outCap : ℕ) :
    Served η P υ :=
  match edgeMetricsFormatHealthJson (w.metrics.getD (edgeMetricsInit env.clock)) env.clock 512 with
  | none =>
    answer s w outCap 500 (bytes "Internal Server Error") (bytes "text/plain")
      (bytes "metrics error\n")
  | some json => answer s w outCap 200 (bytes "OK") jsonType json

/-- The answer for what is not there. -/
def answerNotFound (s : EdgeHttp1Serve η) (w : ServeWorld P υ) (outCap : ℕ) : Served η P υ :=
  answer s w outCap 404 (bytes "Not Found") (bytes "text/plain") (bytes "not found\n")

/-- A static file that was found, or what follows. -/
def serveStatic (s : EdgeHttp1Serve η) (w : ServeWorld P υ) (file : Option Bytes)
    (next : Served η P υ) : Served η P υ :=
  match file with
  | some out => ⟨s, { w with metrics := noteResponse w.metrics 200 }, 1, out⟩
  | none => next

/-- The limit on static files. -/
def maxFileBytes (roots : EdgeHttp1Docroot) : ℕ :=
  if roots.maxFileBytes ≠ 0 then roots.maxFileBytes else EDGE_STATIC_MAX_FILE

/-- The packages route of `dispatch`. -/
def dispatchPackages (env : ServeEnv η P υ) (s : EdgeHttp1Serve η) (w : ServeWorld P υ)
    (outCap : ℕ) (suffix : Bytes) : Served η P υ :=
  match requireRbac s w outCap .resPackages with
  | some denied => denied
  | none =>
    serveStatic s w (tryStatic env s.roots.packagesRoot suffix (maxFileBytes s.roots) outCap)
      (answerNotFound s w outCap)

/-- The SPA, which takes every other path. -/
def dispatchSpa (env : ServeEnv η P υ) (s : EdgeHttp1Serve η) (w : ServeWorld P υ) (outCap : ℕ) :
    Served η P υ :=
  if s.roots.spaRoot.getD [] ≠ [] then
    let url := if s.path = [] then [slash] else s.path
    serveStatic s w (tryStatic env s.roots.spaRoot url (maxFileBytes s.roots) outCap)
      (if url = [slash] then answerNotFound s w outCap
        else
          serveStatic s w
            (tryStatic env s.roots.spaRoot (bytes "/index.html") (maxFileBytes s.roots) outCap)
            (answerNotFound s w outCap))
  else if s.path = [] ∨ s.path = [slash] then
    answer s w outCap 200 (bytes "OK") (bytes "text/plain") (bytes "ok\n")
  else answerNotFound s w outCap

/-- The part of `dispatch` behind the routes that take other methods than GET. -/
def dispatchGet (env : ServeEnv η P υ) (s : EdgeHttp1Serve η) (w : ServeWorld P υ) (outCap : ℕ) :
    Served η P υ :=
  if s.method ≠ [] ∧ s.method ≠ bytes "GET" then
    answer s w outCap 405 (bytes "Method Not Allowed") (bytes "text/plain")
      (bytes "method not allowed\n")
  else if pathIsHealth s.path then dispatchHealth env s w outCap
  else
    match pathIsPackages s.path with
    | some suffix => dispatchPackages env s w outCap suffix
    | none => dispatchSpa env s w outCap

/-- The part of `dispatch` behind the login and the plugins. -/
def dispatchApi (env : ServeEnv η P υ) (s : EdgeHttp1Serve η) (w : ServeWorld P υ) (outCap : ℕ) :
    Served η P υ :=
  if edgeWsPathIsStream s.path then dispatchStream env s w outCap
  else
    match dispatchState env s w outCap with
    | some r => r
    | none => dispatchGet env s w outCap

/-- The plugin host that takes a path. -/
def v1Host (s : EdgeHttp1Serve η) (w : ServeWorld P υ) : Option (EdgePluginHost P) :=
  if pathIsV1 s.path then w.plugins else none

/-- `dispatch`. -/
def dispatch (env : ServeEnv η P υ) (s : EdgeHttp1Serve η) (w : ServeWorld P υ) (outCap : ℕ) :
    Served η P υ :=
  match dispatchLabLogin env s w outCap with
  | some r => r
  | none =>
    match dispatchAuthMe s w outCap with
    | some r => r
    | none =>
      match v1Host s w with
      | some h => dispatchV1 env s w outCap h
      | none => dispatchApi env s w outCap

/-! ## Feeding -/

/-- The principal that the cookie or the proxy headers of a request give. -/
def headerPrincipal (env : ServeEnv η P υ) (auth : Option EdgeAuthCtx) (h1 : η) : EdgePrincipal :=
  let getHeader := env.parser.getHeader h1
  match auth with
  | none => edgePrincipalClear
  | some ctx =>
    match ctx.mode with
    | .modeOpen => edgePrincipalClear
    | .modeLabPassword =>
      match (getHeader (bytes "Cookie") 768).bind (edgeAuthCookieExtract · EDGE_AUTH_COOKIE_MAX) with
      | none => edgePrincipalClear
      | some cookieVal =>
        match edgeAuthSessionVerify auth env.clock (some cookieVal) (some edgePrincipalClear) with
        | some (_, p) => p.getD edgePrincipalClear
        | none => env.overrunPrincipal
    | .modeProxyHeaders =>
      match getHeader (bytes "X-User") EDGE_AUTH_SUB_MAX, getHeader (bytes "X-Auth-Timestamp") 32,
          getHeader (bytes "X-Auth-Signature") EDGE_AUTH_PROXY_SIG_MAX with
      | some user, some ts, some sig =>
        let roles := (getHeader (bytes "X-Roles") EDGE_AUTH_ROLES_CSV_MAX).filter (· ≠ [])
        (edgeAuthProxyVerify auth env.clock (some user) roles (some ts) (some sig)
          (some edgePrincipalClear)).2.getD edgePrincipalClear
      | _, _, _ => edgePrincipalClear

/-- The principal of a request: that of its headers, or the service by its bearer token. -/
def requestPrincipal (env : ServeEnv η P υ) (auth : Option EdgeAuthCtx) (apiKey : Option Bytes)
    (h1 : η) : EdgePrincipal :=
  let p := headerPrincipal env auth h1
  match apiKey.filter (· ≠ []), env.parser.getHeader h1 (bytes "Authorization") 384 with
  | some apiKey, some authz =>
    if !p.authenticated ∧ authz = bytes "Bearer " ++ apiKey then
      { p with
        authenticated := true
        sub := snprintf EDGE_AUTH_SUB_MAX (bytes "service")
        roles := EdgeRole.serviceOpenai.bit }
    else p
  | _, _ => p

/-- The request id: that of the headers, or a new one. -/
def requestRid (env : ServeEnv η P υ) (hub : Option EdgeWsHub) (h1 : η) :
    Option EdgeWsHub × Bytes :=
  match (env.parser.getHeader h1 (bytes "X-Request-Id") EDGE_WS_REQUEST_ID).filter (· ≠ []) with
  | some rid => (hub, snprintf EDGE_WS_REQUEST_ID rid)
  | none => edgeWsHubMintRequestId hub none EDGE_WS_REQUEST_ID

/-- The headers are complete. -/
def onHeaders (env : ServeEnv η P υ) (s : EdgeHttp1Serve η) (hub : Option EdgeWsHub) (h1 : η) :
    EdgeHttp1Serve η × Option EdgeWsHub :=
  let (hub, rid) := requestRid env hub h1
  let s := markBodyOff { s with headersDone := true }
  ({ s with
      contentLength := match env.parser.getHeader h1 (bytes "Content-Length") 32 with
        | some cl => (strtoll cl).1
        | none => 0
      wsKey := (env.parser.getHeader h1 (bytes "Sec-WebSocket-Key") EDGE_WS_KEY_MAX).getD []
      requestId := rid
      principal := requestPrincipal env s.auth s.serviceApiKey h1 }, hub)

/-- The loop over the parser's events; the flag says that one was an error. -/
def onEvents (env : ServeEnv η P υ) : List (Http1Event × η) → EdgeHttp1Serve η → Option EdgeWsHub →
    EdgeHttp1Serve η × Option EdgeWsHub × Bool
  | [], s, hub => (s, hub, false)
  | (.error, _) :: _, s, hub => (s, hub, true)
  | (.requestLine method path, _) :: evs, s, hub =>
    onEvents env evs { s with method := snprintf 16 method, path := snprintf 512 path } hub
  | (.headersComplete, h1) :: evs, s, hub =>
    onEvents env evs (onHeaders env s hub h1).1 (onHeaders env s hub h1).2
  | (.bodyChunk, _) :: evs, s, hub => onEvents env evs s hub

/-- Take in the bytes, feed the parser, and handle what it yields. -/
def feedParser (env : ServeEnv η P υ) (s : EdgeHttp1Serve η) (hub : Option EdgeWsHub)
    (data : Bytes) : EdgeHttp1Serve η × Option EdgeWsHub × Bool :=
  let (events, h1) := env.parser.feedInput s.h1 data
  let (s, hub, bad) := onEvents env events { s with acc := s.acc ++ data } hub
  ({ s with h1 }, hub, bad)

/-- The counters once bytes have come in. -/
def countInput (w : ServeWorld P υ) (data : Bytes) : ServeWorld P υ :=
  { w with metrics := w.metrics.map fun m =>
      { m with bytesIn := m.bytesIn + UInt64.ofNat data.length } }

/-- A request is over once it has a response. -/
def finishServed (r : Served η P υ) : Served η P υ :=
  if r.ret = 1 then { r with serve := { r.serve with done := true } } else r

/-- The part of a feed behind the parser: wait for the body, or answer. -/
def feedParsed (env : ServeEnv η P υ) (s : EdgeHttp1Serve η) (w : ServeWorld P υ) (outCap : ℕ) :
    Served η P υ :=
  if !s.headersDone then ⟨s, w, 0, []⟩
  else if (s.method = bytes "PUT" ∨ s.method = bytes "POST") ∧ s.contentLength > 0 then
    let (s, full) := waitFullBody s
    if !full then ⟨s, w, 0, []⟩ else finishServed (dispatch env s w outCap)
  else finishServed (dispatch env s w outCap)

/-- `edge_http1_serve_feed`. -/
def edgeHttp1ServeFeed (env : ServeEnv η P υ) (s : EdgeHttp1Serve η) (w : ServeWorld P υ)
    (data : Bytes) (outCap : ℕ) : Served η P υ :=
  if s.done then ⟨s, w, -1, []⟩
  else if data = [] then ⟨s, w, 0, []⟩
  else
    let w := countInput w data
    if s.acc.length + data.length > EDGE_HTTP_ACC_MAX then
      finishServed (answer s w outCap 413 (bytes "Payload Too Large") (bytes "text/plain")
        (bytes "request too large\n"))
    else
      let (s, hub, bad) := feedParser env s w.hub data
      let w := { w with hub }
      if bad then
        finishServed (answer s w outCap 400 (bytes "Bad Request") (bytes "text/plain")
          (bytes "bad request\n"))
      else feedParsed env s w outCap

end Edgehost
