import Edgehost.Common.Client
import Edgehost.Core.AuthRbac
import Edgehost.Core.PendingTable
import Edgehost.Core.StateStore

/-!
# The plugin host (`plugin_host.c`)

Plugins are arbitrary code that the host calls back: a callback is a `Client` of the host API, so it
may make any calls with any arguments, one after the other, and return anything. All plugins share a
memory of type `υ`. A plugin pointer has type `P` and points to a `vtbl`, and NULL is `none`, as it
is for the pointers a plugin hands over; the host's own arguments `req`, `res` and `upstream` are
not NULL.

The views that `last_req` holds are read through the host's buffers when they are asked for, since a
later request overwrites the buffers.

The host keeps a `log` of what it does for upstream requests. No code reads it: each function writes
down its own acts where it acts, and statements about orders of calls are statements about the log.
-/

namespace Edgehost

def EDGE_PLUGIN_HOST_MAX_PLUGINS : ℕ := 16
def EDGE_PLUGIN_HOST_MAX_ROUTES : ℕ := 32

def EDGE_PLUGIN_OK : ℤ := 0
def EDGE_PLUGIN_PENDING : ℤ := 1
def EDGE_PLUGIN_ERR : ℤ := -1

/-! ## The plugin interface (`edge_plugin.h`) -/

/-- `edge_plugin_kind_t`. -/
inductive EdgePluginKind where
  | http
  | session
  deriving DecidableEq

/-- `edge_http_req_t`. -/
structure EdgeHttpReq where
  method : Bytes
  path : Bytes
  query : Option Bytes
  headers : List (Bytes × Bytes)
  body : Bytes
  principal : Option EdgePrincipal
  inboundSlot : UInt32

/-- `edge_http_res_t`; `body` is the whole buffer, or `none` for NULL. -/
structure EdgeHttpRes where
  status : ℤ
  reason : Bytes
  contentType : Bytes
  body : Option Bytes
  bodyLen : ℕ
  bodyCap : ℕ
  deriving DecidableEq

/-- `edge_http_client_req_t`. A header array is the list of its pointers, and NULL is the empty
list. -/
structure EdgeHttpClientReq where
  method : Option Bytes
  url : Option Bytes
  host : Option Bytes
  addrOverride : Option Bytes
  hdrNames : List (Option Bytes)
  hdrValues : List (Option Bytes)
  nHeaders : ℕ
  body : Option Bytes
  bodyLen : ℕ
  timeoutMs : UInt32
  userTag : UInt64
  deriving DecidableEq

/-- `edge_http_client_result_t`. -/
structure EdgeHttpClientResult where
  outboundId : UInt64
  userTag : UInt64
  transportErr : ℤ
  status : ℤ
  headers : List (Bytes × Bytes)
  body : Bytes

/-- `edge_http_res_set_body`. -/
def edgeHttpResSetBody (res : EdgeHttpRes) (data : Bytes) (len : ℕ) : EdgeHttpRes × ℤ :=
  match res.body with
  | none => (res, -1)
  | some body =>
    if len > res.bodyCap then (res, -1)
    else ({ res with body := some (data.take len ++ body.drop len), bodyLen := len }, 0)

/-- A call of the host API. `httpClientRequest` also says whether its buffer for the body can be
grown, should that be needed. -/
inductive ApiCall where
  | stateGet (ns key : Option Bytes) (out : Bool) (inoutLen : Option ℕ)
  | statePut (ns key value : Option Bytes)
  | emitWsBroadcast (topic json : Option Bytes)
  | log (level : ℤ) (fmt : Option Bytes)
  | httpClientRequest (req : Option EdgeHttpClientReq) (outId : Bool) (alloc : Bool)
  | scheduleTimer (delayMs : UInt64)
  | cancelTimer (timerId : UInt64)
  deriving DecidableEq

/-- What a plugin gets back: a status alone, or one of the two successes that write through an
output pointer. -/
inductive ApiReply where
  | status (code : ℤ)
  | got (out : Bytes) (len : ℕ)
  | accepted (id : UInt64)
  deriving DecidableEq

/-- What `on_http` and `on_http_complete` return, with the response and the plugins' memory they
leave. -/
structure PluginResult (υ : Type*) where
  status : ℤ
  res : EdgeHttpRes
  mem : υ

/-- `edge_plugin_vtbl_t`, the members that the host calls here. -/
structure EdgePluginVtbl (υ : Type*) where
  kind : EdgePluginKind
  init : Option (υ → Client ApiCall ApiReply (ℤ × υ))
  onHttp : Option (EdgeHttpReq → EdgeHttpRes → υ → Client ApiCall ApiReply (PluginResult υ))
  onHttpComplete :
    Option (EdgeHttpClientResult → EdgeHttpRes → υ → Client ApiCall ApiReply (PluginResult υ))

/-! ## The host -/

/-- The scalar members of `last_req`, and which of its pointers are not NULL. -/
structure LastReqView where
  host : Bool
  addrOverride : Bool
  body : Bool
  bodyLen : ℕ
  timeoutMs : UInt32
  userTag : UInt64
  nHeaders : ℕ
  deriving DecidableEq

/-- What the host does for upstream requests: it hands out an id, has had `on_http` return, executes
the request with an id, calls `on_http_complete` of a plugin, or releases the entry of a request. -/
inductive HostEvent (P : Type*) where
  | handedOut (id : UInt64) (p : P) (slot : UInt32)
  | dispatched (slot : UInt32)
  | executed (id : UInt64)
  | completeCalled (id : UInt64) (p : P)
  | ended (id : UInt64)
  deriving DecidableEq

/-- `struct edge_plugin_host`. -/
structure EdgePluginHost (P : Type*) where
  state : Option StateStore
  pending : EdgePendingTable P
  plugins : List P
  routes : List (Bytes × P)
  activePlugin : Option P
  activeInboundSlot : UInt32
  activeInOnHttp : Bool
  clientReqStarted : Bool
  nextOutboundId : UInt64
  lastReq : LastReqView
  lastMethod : Bytes
  lastUrl : Bytes
  lastHost : Bytes
  lastAddr : Bytes
  lastBody : Bytes
  lastBodyLen : ℕ
  lastBodyCap : ℕ
  lastHdrNames : List Bytes
  lastHdrValues : List Bytes
  lastNHeaders : ℕ
  lastOutboundId : UInt64
  hasLastReq : Bool
  log : List (HostEvent P)
  deriving DecidableEq

variable {P : Type*} {υ : Type*}

/-- Write an act down. -/
def EdgePluginHost.note (h : EdgePluginHost P) (ev : HostEvent P) : EdgePluginHost P :=
  { h with log := h.log ++ [ev] }

/-- `api_state_get`. -/
def apiStateGet (h : EdgePluginHost P) (ns key : Option Bytes) (out : Bool) (inoutLen : Option ℕ) :
    ApiReply :=
  match h.state, inoutLen, ns, key with
  | some st, some cap, some ns, some key =>
    match edgeStateGet st ns key cap with
    | .error _ => .status (-1)
    | .ok (copied, got) => .got (if out then copied else []) got
  | _, _, _, _ => .status (-1)

/-- `api_state_put`. -/
def apiStatePut (h : EdgePluginHost P) (ns key value : Option Bytes) : EdgePluginHost P × ℤ :=
  match h.state, ns, key, value with
  | some st, some ns, some key, some value =>
    match edgeStatePut st ns key value with
    | (st, .ok) => ({ h with state := some st }, 0)
    | (st, _) => ({ h with state := some st }, -1)
  | _, _, _, _ => (h, -1)

/-- `api_emit_ws`. -/
def apiEmitWs : ℤ := 0

/-- `api_log`. -/
def apiLog (fmt : Option Bytes) : ℤ := if fmt.isNone then -1 else 0

/-- Copy the texts of a request into the host's buffers; an absent one is the empty text. -/
def storeTexts (h : EdgePluginHost P) (method url : Bytes) (req : EdgeHttpClientReq) :
    EdgePluginHost P :=
  { h with
    lastMethod := snprintf 16 method
    lastUrl := snprintf 512 url
    lastHost := snprintf 256 (req.host.getD [])
    lastAddr := snprintf 64 (req.addrOverride.getD []) }

/-- The body to copy, if there is one. -/
def EdgeHttpClientReq.storedBody (req : EdgeHttpClientReq) : Option Bytes :=
  if req.bodyLen > 0 then req.body else none

/-- Copy the body, growing the buffer where it is too short. -/
def storeBody (h : EdgePluginHost P) (req : EdgeHttpClientReq) : EdgePluginHost P :=
  match req.storedBody with
  | none => { h with lastBodyLen := 0 }
  | some body =>
    { h with
      lastBody := body.take req.bodyLen ++ h.lastBody.drop req.bodyLen
      lastBodyLen := req.bodyLen
      lastBodyCap := max h.lastBodyCap req.bodyLen }

/-- The number of headers to copy. -/
def EdgeHttpClientReq.storedHeaders (req : EdgeHttpClientReq) : ℕ :=
  if req.nHeaders > 8 then 8 else req.nHeaders

/-- A row of header buffers as rewritten from an array of pointers: its first `nh` cells are
overwritten and the rest stays. -/
def storeHdrs (cap nh : ℕ) (src : List (Option Bytes)) (old : List Bytes) : List Bytes :=
  (List.range nh).map (fun i => snprintf cap ((src[i]?.join).getD [])) ++ old.drop nh

/-- Copy the header fields. -/
def storeHeaders (h : EdgePluginHost P) (req : EdgeHttpClientReq) : EdgePluginHost P :=
  { h with
    lastNHeaders := req.storedHeaders
    lastHdrNames := storeHdrs 64 req.storedHeaders req.hdrNames h.lastHdrNames
    lastHdrValues := storeHdrs 384 req.storedHeaders req.hdrValues h.lastHdrValues }

/-- Point `last_req` at the buffers. -/
def viewLastReq (h : EdgePluginHost P) (req : EdgeHttpClientReq) : EdgePluginHost P :=
  { h with
    lastReq :=
      { host := h.lastHost ≠ []
        addrOverride := h.lastAddr ≠ []
        body := h.lastBodyLen ≠ 0
        bodyLen := h.lastBodyLen
        timeoutMs := req.timeoutMs
        userTag := req.userTag
        nHeaders := h.lastNHeaders }
    hasLastReq := true }

/-- `store_last_req`; `alloc` says whether `realloc` succeeds. -/
def storeLastReq (h : EdgePluginHost P) (req : EdgeHttpClientReq) (alloc : Bool) :
    EdgePluginHost P × ℤ :=
  match req.method, req.url with
  | some method, some url =>
    let h := storeTexts h method url req
    -- The texts stay overwritten when the body finds no memory.
    if req.storedBody.isSome ∧ req.bodyLen > h.lastBodyCap ∧ alloc = false then (h, -1)
    else (viewLastReq (storeHeaders (storeBody h req) req) req, 0)
  | _, _ => (h, -1)

/-- The id that the host mints next. -/
def mintedId (h : EdgePluginHost P) : UInt64 :=
  if h.nextOutboundId = 0 then h.nextOutboundId + 1 else h.nextOutboundId

/-- `api_http_client_request`. -/
def apiHttpClientRequest (h : EdgePluginHost P) (req : Option EdgeHttpClientReq)
    (outId alloc : Bool) : EdgePluginHost P × ApiReply :=
  match req, h.activePlugin with
  | some req, some plugin =>
    if !outId then (h, .status (-1))
    else if !h.activeInOnHttp then (h, .status (-1))
    else if h.clientReqStarted then (h, .status (-1))
    else if edgePendingFull h.pending then (h, .status (-1))
    else if (edgePendingFindInbound h.pending h.activeInboundSlot).isSome then (h, .status (-1))
    else
      let (h, rc) := storeLastReq h req alloc
      if rc ≠ 0 then (h, .status (-1))
      else
        let id := mintedId h
        let h := { h with nextOutboundId := id + 1 }
        let (pending, rc) := edgePendingInsert h.pending h.activeInboundSlot id (some plugin)
          req.userTag req.timeoutMs 0 none
        if rc ≠ 0 then ({ h with pending }, .status (-1))
        else
          let h := h.note (.handedOut id plugin h.activeInboundSlot)
          ({ h with pending, clientReqStarted := true, lastOutboundId := id }, .accepted id)
  | _, _ => (h, .status (-1))

/-- The host API, one answer for each call. -/
def apiAnswer (h : EdgePluginHost P) : ApiCall → EdgePluginHost P × ApiReply
  | .stateGet ns key out inoutLen => (h, apiStateGet h ns key out inoutLen)
  | .statePut ns key value => ((apiStatePut h ns key value).1, .status (apiStatePut h ns key value).2)
  | .emitWsBroadcast _ _ => (h, .status apiEmitWs)
  | .log _ fmt => (h, .status (apiLog fmt))
  | .httpClientRequest req outId alloc => apiHttpClientRequest h req outId alloc
  | .scheduleTimer _ => (h, .status (-1))
  | .cancelTimer _ => (h, .status (-1))

/-- `edge_plugin_host_create`, when its allocations succeed. -/
def edgePluginHostCreate (maxPending : ℕ) (state : Option StateStore) : EdgePluginHost P where
  state := state
  pending := edgePendingCreate (if maxPending > 0 then maxPending else EDGE_PENDING_DEFAULT_CAP)
  plugins := []
  routes := []
  activePlugin := none
  activeInboundSlot := 0
  activeInOnHttp := false
  clientReqStarted := false
  nextOutboundId := 1
  lastReq :=
    { host := false, addrOverride := false, body := false, bodyLen := 0, timeoutMs := 0
      userTag := 0, nHeaders := 0 }
  lastMethod := []
  lastUrl := []
  lastHost := []
  lastAddr := []
  lastBody := []
  lastBodyLen := 0
  lastBodyCap := 0
  lastHdrNames := List.replicate 8 []
  lastHdrValues := List.replicate 8 []
  lastNHeaders := 0
  lastOutboundId := 0
  hasLastReq := false
  log := []

/-- `edge_plugin_host_register`, with the plugins' memory that `init` leaves and the status. -/
def edgePluginHostRegister (vtbl : P → Option (EdgePluginVtbl υ)) (h : EdgePluginHost P) (mem : υ)
    (plugin : Option P) : EdgePluginHost P × υ × ℤ :=
  match plugin, plugin.bind vtbl with
  | some p, some vt =>
    if h.plugins.length ≥ EDGE_PLUGIN_HOST_MAX_PLUGINS then (h, mem, -1)
    else
      match vt.init with
      | none => ({ h with plugins := h.plugins ++ [p] }, mem, 0)
      | some init =>
        let (h, rc, mem) := (init mem).run apiAnswer h
        if rc ≠ 0 then (h, mem, -1) else ({ h with plugins := h.plugins ++ [p] }, mem, 0)
  | _, _ => (h, mem, -1)

/-- `edge_plugin_host_add_route`. -/
def edgePluginHostAddRoute (h : EdgePluginHost P) (pathPrefix : Option Bytes) (plugin : Option P) :
    EdgePluginHost P × ℤ :=
  match pathPrefix, plugin with
  | some pathPrefix, some plugin =>
    if pathPrefix = [] then (h, -1)
    else if h.routes.length ≥ EDGE_PLUGIN_HOST_MAX_ROUTES then (h, -1)
    else if pathPrefix.length ≥ 128 then (h, -1)
    else ({ h with routes := h.routes ++ [(snprintf 128 pathPrefix, plugin)] }, 0)
  | _, _ => (h, -1)

/-- Whether a path lies under a route: it starts with the prefix and the prefix ends there, at a `/`,
or in a `/`. -/
def routeMatches (pathPrefix path : Bytes) : Bool :=
  pathPrefix.isPrefixOf path &&
    (path[pathPrefix.length]?.all (· = charByte '/') || pathPrefix.getLast? = some (charByte '/'))

/-- `edge_plugin_host_match`: one pass that keeps the longest prefix so far, the later one of two
equally long. -/
def edgePluginHostMatch (h : EdgePluginHost P) (path : Bytes) : Option P :=
  (h.routes.foldl (fun (best : Option P × ℕ) route =>
    if route.1 = [] then best
    else if routeMatches route.1 path then
      if route.1.length ≥ best.2 then (some route.2, route.1.length) else best
    else best) (none, 0)).1

/-- `edge_plugin_host_last_client_req`: the request that `last_req` points at. -/
def edgePluginHostLastClientReq (h : EdgePluginHost P) : Option EdgeHttpClientReq :=
  if !h.hasLastReq then none
  else
    some
      { method := some h.lastMethod
        url := some h.lastUrl
        host := if h.lastReq.host then some h.lastHost else none
        addrOverride := if h.lastReq.addrOverride then some h.lastAddr else none
        hdrNames := (h.lastHdrNames.take h.lastReq.nHeaders).map some
        hdrValues := (h.lastHdrValues.take h.lastReq.nHeaders).map some
        nHeaders := h.lastReq.nHeaders
        body := if h.lastReq.body then some (h.lastBody.take h.lastReq.bodyLen) else none
        bodyLen := h.lastReq.bodyLen
        timeoutMs := h.lastReq.timeoutMs
        userTag := h.lastReq.userTag }

/-- What a host call on behalf of a request returns. -/
structure HostResult (P υ : Type*) where
  host : EdgePluginHost P
  mem : υ
  res : EdgeHttpRes
  status : ℤ

/-! ## Releasing an entry -/

/-- The end of the request whose entry was found. -/
def endOf : Option (ℕ × EdgePendingEntry P) → List (HostEvent P)
  | none => []
  | some (_, e) => [.ended e.outboundId]

/-- `edge_pending_release` of the entry in a slot of the table. -/
def releaseEntry (h : EdgePluginHost P) (i : ℕ) (e : EdgePendingEntry P) : EdgePluginHost P :=
  { h.note (.ended e.outboundId) with pending := edgePendingRelease h.pending i }

/-- `edge_pending_release_inbound` on the table of the host. -/
def releaseInbound (h : EdgePluginHost P) (slot : UInt32) : EdgePluginHost P × ℤ :=
  let (pending, rc) := edgePendingReleaseInbound h.pending slot
  ({ h with pending, log := h.log ++ endOf (edgePendingFindInbound h.pending slot) }, rc)

/-- `edge_pending_release_outbound` on the table of the host. -/
def releaseOutbound (h : EdgePluginHost P) (id : UInt64) : EdgePluginHost P × ℤ :=
  let (pending, rc) := edgePendingReleaseOutbound h.pending id
  ({ h with pending, log := h.log ++ endOf (edgePendingFindOutbound h.pending id) }, rc)

/-! ## Calling a plugin -/

/-- The host while `on_http` of plugin `p` runs for an inbound slot. -/
def enterOnHttp (h : EdgePluginHost P) (p : P) (inboundSlot : UInt32) : EdgePluginHost P :=
  { h with
    activePlugin := some p
    activeInboundSlot := inboundSlot
    activeInOnHttp := true
    clientReqStarted := false }

/-- The host after `on_http` has returned. -/
def leaveOnHttp (h : EdgePluginHost P) (inboundSlot : UInt32) : EdgePluginHost P :=
  { h.note (.dispatched inboundSlot) with activeInOnHttp := false, activePlugin := none }

/-- The call of `on_http_complete` of plugin `p`, which then makes the calls `c`. -/
def callOnHttpComplete (h : EdgePluginHost P) (id : UInt64) (p : P)
    (c : Client ApiCall ApiReply (PluginResult υ)) : EdgePluginHost P × PluginResult υ :=
  c.run apiAnswer (h.note (.completeCalled id p))

/-- The rest of a dispatch, once `on_http` has returned. -/
def afterOnHttp (h : EdgePluginHost P) (st : PluginResult υ) (inboundSlot : UInt32) :
    HostResult P υ :=
  if st.status = EDGE_PLUGIN_PENDING then
    if !h.clientReqStarted then
      -- PENDING without an outbound request is a plugin bug.
      let h := (releaseInbound h inboundSlot).1
      let res := { st.res with status := 500, reason := bytes "Internal Server Error" }
      let res := (edgeHttpResSetBody res
        (bytes "\x7b\"error\":\"PENDING_WITHOUT_OUTBOUND\"\x7d") 35).1
      ⟨h, st.mem, res, EDGE_PLUGIN_ERR⟩
    else ⟨h, st.mem, st.res, EDGE_PLUGIN_PENDING⟩
  else if st.status = EDGE_PLUGIN_OK then ⟨h, st.mem, st.res, EDGE_PLUGIN_OK⟩
  else
    let res :=
      if st.res.status = 0 then
        { st.res with status := 500, reason := bytes "Internal Server Error" }
      else st.res
    ⟨h, st.mem, res, EDGE_PLUGIN_ERR⟩

/-- `edge_plugin_host_dispatch_http`. -/
def edgePluginHostDispatchHttp (vtbl : P → Option (EdgePluginVtbl υ)) (h : EdgePluginHost P)
    (mem : υ) (plugin : Option P) (req : EdgeHttpReq) (res : EdgeHttpRes) : HostResult P υ :=
  match plugin, plugin.bind vtbl with
  | some p, some vt =>
    if vt.kind ≠ .http then ⟨h, mem, res, EDGE_PLUGIN_ERR⟩
    else
      match vt.onHttp with
      | none => ⟨h, mem, res, EDGE_PLUGIN_ERR⟩
      | some onHttp =>
        if (edgePendingFindInbound h.pending req.inboundSlot).isSome then
          let res := { res with status := 500, reason := bytes "Internal Server Error" }
          let res := (edgeHttpResSetBody res (bytes "\x7b\"error\":\"NESTED_PENDING\"\x7d") 26).1
          ⟨h, mem, res, EDGE_PLUGIN_ERR⟩
        else
          let (h, st) := (onHttp req res mem).run apiAnswer (enterOnHttp h p req.inboundSlot)
          afterOnHttp (leaveOnHttp h req.inboundSlot) st req.inboundSlot
  | _, _ => ⟨h, mem, res, EDGE_PLUGIN_ERR⟩

/-- `edge_plugin_host_complete_outbound`. -/
def edgePluginHostCompleteOutbound (vtbl : P → Option (EdgePluginVtbl υ)) (h : EdgePluginHost P)
    (mem : υ) (upstream : EdgeHttpClientResult) (res : EdgeHttpRes) : HostResult P υ :=
  if upstream.outboundId = 0 then ⟨h, mem, res, EDGE_PLUGIN_ERR⟩
  else
    match edgePendingFindOutbound h.pending upstream.outboundId with
    | none => ⟨h, mem, res, EDGE_PLUGIN_ERR⟩
    | some (i, e) =>
      match e.plugin, (e.plugin.bind vtbl).bind EdgePluginVtbl.onHttpComplete with
      | some p, some onHttpComplete =>
        -- The entry is still in the table while the handler runs.
        let (h, st) := callOnHttpComplete h upstream.outboundId p (onHttpComplete upstream res mem)
        let h := releaseEntry h i e
        if st.status = EDGE_PLUGIN_PENDING then
          let res := { st.res with status := 500, reason := bytes "Internal Server Error" }
          let res := (edgeHttpResSetBody res (bytes "\x7b\"error\":\"DOUBLE_PENDING\"\x7d") 25).1
          ⟨h, st.mem, res, EDGE_PLUGIN_ERR⟩
        else if st.status = EDGE_PLUGIN_OK then ⟨h, st.mem, st.res, EDGE_PLUGIN_OK⟩
        else
          let res :=
            if st.res.status = 0 then { st.res with status := 502, reason := bytes "Bad Gateway" }
            else st.res
          ⟨h, st.mem, res, EDGE_PLUGIN_ERR⟩
      | _, _ =>
        let h := releaseEntry h i e
        let res := { res with status := 500 }
        let res := (edgeHttpResSetBody res (bytes "\x7b\"error\":\"NO_COMPLETE_HANDLER\"\x7d") 30).1
        ⟨h, mem, res, EDGE_PLUGIN_ERR⟩

/-- `edge_plugin_host_cancel_inbound`. -/
def edgePluginHostCancelInbound (h : EdgePluginHost P) (inboundSlot : UInt32) :
    EdgePluginHost P × ℤ :=
  releaseInbound h inboundSlot

end Edgehost
