import Edgehost.Common.Runs
import Edgehost.Host.Http1Serve
import Edgehost.Host.PqSidecar

/-!
# The event loop (`iouring_loop.c`)

`edge_iouring_run` over plain TCP: the connection slots, the operations handed to `io_uring`, and what
each completion does. Without a TLS context no connection has an `SSL`, so no poll is ever submitted.
The loop in full is `Tls.loopStep`, and `Tls.loop_plain` says that without TLS it is this one.

The kernel and the WebSocket library are parameters. An operation carries its `user_data`, the
operation and the slot, and beside it the connection that it was submitted for: no code reads that, it
is there for the statements. Closing a socket does not cancel what is in flight.

* `unpackUd_packUd` — `user_data` holds the operation and the slot, and nothing else.
-/

namespace Edgehost

/-! ## Operations -/

/-- `OP_ACCEPT`, `OP_RECV`, `OP_SEND`. -/
inductive LoopOp where
  | accept
  | recv
  | send
  deriving DecidableEq

/-- `pack_ud`. -/
def packUd (op slot : UInt32) : UInt64 := (op.toUInt64 <<< 32) ||| slot.toUInt64

/-- `unpack_ud`. -/
def unpackUd (ud : UInt64) : UInt32 × UInt32 :=
  ((ud >>> 32).toUInt32, (ud &&& 0xffffffff).toUInt32)

theorem toNat_packUd (op slot : UInt32) :
    (packUd op slot).toNat = op.toNat * 2 ^ 32 + slot.toNat := by
  have hop := op.toNat_lt
  have hslot := slot.toNat_lt
  rw [packUd, UInt64.toNat_or, UInt64.toNat_shiftLeft, UInt32.toNat_toUInt64,
    UInt32.toNat_toUInt64, show (32 : UInt64).toNat % 64 = 32 by decide,
    Nat.mod_eq_of_lt (by rw [Nat.shiftLeft_eq]; omega), ← Nat.shiftLeft_add_eq_or_of_lt hslot,
    Nat.shiftLeft_eq]

/-- Nothing of the operation and the slot is lost in `user_data`. -/
theorem unpackUd_packUd (op slot : UInt32) : unpackUd (packUd op slot) = (op, slot) := by
  have hop := op.toNat_lt
  have hslot := slot.toNat_lt
  refine Prod.ext (UInt32.toNat_inj.mp ?_) (UInt32.toNat_inj.mp ?_)
  · dsimp only [unpackUd]
    rw [UInt64.toNat_toUInt32, UInt64.toNat_shiftRight, toNat_packUd,
      show (32 : UInt64).toNat % 64 = 32 by decide, Nat.shiftRight_eq_div_pow]
    omega
  · dsimp only [unpackUd]
    rw [UInt64.toNat_toUInt32, UInt64.toNat_and, toNat_packUd,
      show (0xffffffff : UInt64).toNat = 2 ^ 32 - 1 by decide, Nat.and_two_pow_sub_one_eq_mod]
    omega

/-- An operation: its `user_data`, unpacked, and the connection that submitted it. -/
structure Sqe where
  op : LoopOp
  slot : ℕ
  owner : ℕ
  deriving DecidableEq

/-! ## Connections -/

/-- `conn_state_t`, less the TLS handshake. -/
inductive ConnState where
  | free
  | recv
  | send
  | wsRecv
  | wsSend
  deriving DecidableEq

/-- What `websocket_next_event` yields, as far as the loop tells it apart. -/
inductive WsEvent where
  | close
  | error
  | ping (payload : Bytes)
  | other

/-- The WebSocket library. `feedInput` yields the events that the loop then takes one by one. -/
structure WebsocketLib (ω : Type*) where
  create : Option ω
  feedInput : ω → Bytes → List WsEvent × ω
  sendPong : ω → Bytes → Option ω
  sendText : ω → Bytes → Option ω
  getOutput : ω → ℕ → Bytes × ω

/-- `conn_t` of a plain connection. `sendBuf` is what `send_buf` holds up to `send_len`; it is `none`
while there is no buffer. `born` tells the connections apart that a slot has held. -/
structure Conn (η ω : Type*) where
  fd : Option ℕ
  state : ConnState
  slot : ℕ
  recvPending : Bool
  sendPending : Bool
  sendBuf : Option Bytes
  sendOff : ℕ
  http : Option (EdgeHttp1Serve η)
  ws : Option ω
  keepWs : Bool
  born : ℕ

/-- The parameters of the loop. -/
structure LoopOpts (η : Type*) where
  maxAccepts : ℕ
  ringEntries : ℕ
  sendCap : ℕ
  pqCfg : EdgePqSidecarConfig
  newServe : EdgeHttp1Serve η

/-- What the system and the libraries do in one step. -/
structure LoopEnv (η P υ ω : Type*) where
  serve : ServeEnv η P υ
  ws : WebsocketLib ω
  nonblock : Bool
  allocSendBuf : Bool
  allocServe : Bool
  scrape : ScrapeEnv

/-- What the connections share: the process, the operations prepared since the last submission, and,
for the statements, the received bytes that went to a parser. -/
structure LoopIo (P υ : Type*) where
  world : ServeWorld P υ
  sq : List Sqe
  fed : List (ℕ × Bytes)

/-- `server_t`. -/
structure Server (η P υ ω : Type*) where
  conns : List (Conn η ω)
  io : LoopIo P υ
  inFlight : List Sqe
  acceptsDone : ℕ
  acceptPending : Bool
  tick : UInt64
  lastScrapeMs : UInt64
  births : ℕ

variable {η P υ ω : Type*}

/-- A slot without a connection. -/
def Conn.idle (slot : ℕ) : Conn η ω where
  fd := none
  state := .free
  slot := slot
  recvPending := false
  sendPending := false
  sendBuf := none
  sendOff := 0
  http := none
  ws := none
  keepWs := false
  born := 0

/-- Count in the metrics. -/
def LoopIo.count (io : LoopIo P υ) (f : EdgeMetrics → EdgeMetrics) : LoopIo P υ :=
  { io with world := { io.world with metrics := io.world.metrics.map f } }

/-! ## Submitting -/

/-- `io_uring_get_sqe` and the preparation of the entry. -/
def getSqe (o : LoopOpts η) (io : LoopIo P υ) (sqe : Sqe) : Option (LoopIo P υ) :=
  if io.sq.length < o.ringEntries then some { io with sq := io.sq ++ [sqe] } else none

/-- `submit_recv`. -/
def submitRecv (o : LoopOpts η) (io : LoopIo P υ) (c : Conn η ω) : LoopIo P υ × Conn η ω × ℤ :=
  if c.recvPending ∨ c.state ≠ .recv ∧ c.state ≠ .wsRecv then (io, c, 0)
  else
    match getSqe o io ⟨.recv, c.slot, c.born⟩ with
    | none => (io, c, -1)
    | some io => (io, { c with recvPending := true }, 0)

/-- `submit_send`. -/
def submitSend (o : LoopOpts η) (io : LoopIo P υ) (c : Conn η ω) : LoopIo P υ × Conn η ω × ℤ :=
  if c.sendPending ∨ c.sendOff ≥ (c.sendBuf.getD []).length then (io, c, 0)
  else
    match getSqe o io ⟨.send, c.slot, c.born⟩ with
    | none => (io, c, -1)
    | some io => (io, { c with sendPending := true }, 0)

/-- `begin_send_buf`. -/
def beginSendBuf (o : LoopOpts η) (io : LoopIo P υ) (c : Conn η ω) (buf : Bytes) (st : ConnState) :
    LoopIo P υ × Conn η ω × ℤ :=
  submitSend o io { c with sendBuf := some buf, sendOff := 0, state := st }

/-- `close_conn`. -/
def closeConn (io : LoopIo P υ) (c : Conn η ω) : LoopIo P υ × Conn η ω :=
  if c.state = .free then (io, c)
  else
    let io := { io with world :=
      { io.world with hub := io.world.hub.map fun h => edgeWsHubUnsubscribe h c.slot } }
    let io := match c.fd with
      | some _ =>
        io.count fun m => { m with activeConns := if m.activeConns > 0 then m.activeConns - 1 else 0 }
      | none => io
    (io, { c with
      fd := none
      state := .free
      recvPending := false
      sendPending := false
      sendBuf := none
      sendOff := 0
      http := none
      ws := none
      keepWs := false })

/-- Close the connection if the handler failed. -/
def closeOnError (r : LoopIo P υ × Conn η ω × ℤ) : LoopIo P υ × Conn η ω :=
  if r.2.2 ≠ 0 then closeConn r.1 r.2.1 else (r.1, r.2.1)

/-! ## WebSocket connections -/

/-- The first message that waits for a slot. -/
def takePending (io : LoopIo P υ) (slot : ℕ) : LoopIo P υ × ℤ × Bytes :=
  match io.world.hub with
  | none => (io, -1, [])
  | some h =>
    let r := edgeWsHubTakePending h slot EDGE_WS_MSG_MAX
    ({ io with world := { io.world with hub := some r.1 } }, r.2)

/-- `begin_send_buf` for a frame. -/
def sendFrame (o : LoopOpts η) (io : LoopIo P υ) (c : Conn η ω) (frame : Bytes) :
    LoopIo P υ × Conn η ω × ℤ :=
  let r := beginSendBuf o io c frame .wsSend
  (r.1, r.2.1, if r.2.2 = 0 then 1 else -1)

/-- `ws_flush_output`. -/
def wsFlushOutput (o : LoopOpts η) (env : LoopEnv η P υ ω) (io : LoopIo P υ) (c : Conn η ω) :
    LoopIo P υ × Conn η ω × ℤ :=
  match c.ws with
  | none => (io, c, 0)
  | some ws =>
    if c.sendPending ∨ c.state = .wsSend then (io, c, 0)
    else
      let (frame, ws) := env.ws.getOutput ws o.sendCap
      let c := { c with ws := some ws }
      if frame = [] then (io, c, 0)
      else if frame.length ≥ o.sendCap then (io, c, -1)
      else sendFrame o io c frame

/-- `ws_try_send_pending`. -/
def wsTrySendPending (o : LoopOpts η) (env : LoopEnv η P υ ω) (io : LoopIo P υ) (c : Conn η ω) :
    LoopIo P υ × Conn η ω × ℤ :=
  if c.ws.isNone ∨ io.world.hub.isNone ∨ c.state = .wsSend ∨ c.sendPending then (io, c, 0)
  else
    let (io, c, rc) := wsFlushOutput o env io c
    if rc ≠ 0 then (io, c, rc)
    else
      let (io, taken, text) := takePending io c.slot
      if taken ≠ 1 then (io, c, if taken < 0 then -1 else 0)
      else
        match c.ws.bind (env.ws.sendText · text) with
        | none => (io, c, -1)
        | some ws =>
          let (frame, ws) := env.ws.getOutput ws o.sendCap
          let c := { c with ws := some ws }
          if frame = [] ∨ frame.length ≥ o.sendCap then (io, c, -1)
          else sendFrame o io c frame

/-- `edge_ws_hub_is_subscribed`. -/
def edgeWsHubIsSubscribed (hub : Option EdgeWsHub) (slot : ℕ) : Bool :=
  match hub.bind (·.subs[slot]?) with
  | some s => s.active
  | none => false

/-- The body of the loop in `ws_flush_all_pending`. -/
def flushPending (o : LoopOpts η) (env : LoopEnv η P υ ω) (io : LoopIo P υ) (c : Conn η ω) :
    LoopIo P υ × Conn η ω :=
  if c.state = .wsRecv ∧ c.ws.isSome ∧ edgeWsHubIsSubscribed io.world.hub c.slot then
    let r := wsTrySendPending o env io c
    (r.1, r.2.1)
  else (io, c)

/-- `ws_flush_all_pending`: the slots in their order. -/
def wsFlushAllPending (o : LoopOpts η) (env : LoopEnv η P υ ω) :
    LoopIo P υ → List (Conn η ω) → LoopIo P υ × List (Conn η ω)
  | io, [] => (io, [])
  | io, c :: cs =>
    let r := flushPending o env io c
    let rest := wsFlushAllPending o env r.1 cs
    (rest.1, r.2 :: rest.2)

/-- `promote_to_ws`. -/
def promoteToWs (o : LoopOpts η) (env : LoopEnv η P υ ω) (io : LoopIo P υ) (c : Conn η ω) :
    LoopIo P υ × Conn η ω × ℤ :=
  match env.ws.create, io.world.hub with
  | some ws, some h =>
    let r := edgeWsHubSubscribe h c.slot
    if r.2 ≠ 0 then (io, { c with ws := none }, -1)
    else
      let io := { io with world := { io.world with hub := some r.1 } }
      let c := { c with ws := some ws, keepWs := false, state := .wsRecv, http := none }
      let (io, c, rc) := submitRecv o io c
      if rc ≠ 0 then (io, c, -1)
      else
        -- The result of the first fan-out is not looked at.
        let r := wsTrySendPending o env io c
        (r.1, r.2.1, 0)
  | some _, none => (io, { c with ws := none }, -1)
  | none, _ => (io, { c with ws := none }, -1)

/-- `handle_send_complete`. -/
def handleSendComplete (o : LoopOpts η) (env : LoopEnv η P υ ω) (io : LoopIo P υ) (c : Conn η ω) :
    LoopIo P υ × Conn η ω × ℤ :=
  if c.state = .send ∧ c.keepWs then promoteToWs o env io c
  else if c.state = .wsSend then
    let (io, c, rc) := wsTrySendPending o env io { c with state := .wsRecv }
    if rc = 0 ∧ !c.recvPending then submitRecv o io c else (io, c, 0)
  else
    let r := closeConn io c
    (r.1, r.2, 0)

/-- The events of a WebSocket connection: pings are answered, a close or an error ends it. -/
def wsEvents (env : LoopEnv η P υ ω) : List WsEvent → ω → ω × ℤ
  | [], ws => (ws, 0)
  | .close :: _, ws => (ws, -1)
  | .error :: _, ws => (ws, -1)
  | .ping payload :: evs, ws =>
    match env.ws.sendPong ws payload with
    | none => (ws, -1)
    | some ws => wsEvents env evs ws
  | .other :: evs, ws => wsEvents env evs ws

/-- `handle_ws_recv`. -/
def handleWsRecv (o : LoopOpts η) (env : LoopEnv η P υ ω) (io : LoopIo P υ) (c : Conn η ω)
    (data : Bytes) : LoopIo P υ × Conn η ω × ℤ :=
  match c.ws with
  | none => (io, c, -1)
  | some ws =>
    let (evs, ws) := env.ws.feedInput ws data
    let io := { io with fed := io.fed ++ [(c.born, data)] }
    let io := io.count fun m => { m with bytesIn := m.bytesIn + UInt64.ofNat data.length }
    let (ws, rc) := wsEvents env evs ws
    let c := { c with ws := some ws }
    if rc ≠ 0 then (io, c, -1)
    else if c.state = .wsRecv ∧ !c.sendPending then
      let r := wsFlushOutput o env io c
      (r.1, r.2.1, if r.2.2 < 0 then -1 else 0)
    else (io, c, 0)

/-! ## HTTP connections -/

/-- The reply of `begin_bad_request_plain`. -/
def badRequest : Bytes :=
  bytes "HTTP/1.1 400 Bad Request" ++ crlf ++ bytes "Content-Type: text/plain" ++ crlf
    ++ bytes "Content-Length: 12" ++ crlf ++ bytes "Connection: close" ++ crlf2
    ++ bytes "bad request\n"

/-- `begin_bad_request_plain`. -/
def beginBadRequestPlain (o : LoopOpts η) (io : LoopIo P υ) (c : Conn η ω) :
    LoopIo P υ × Conn η ω × ℤ :=
  if c.sendBuf.isNone ∨ badRequest.length ≥ o.sendCap then (io, c, -1)
  else
    let io := io.count fun m =>
      { m with requests := m.requests + 1, responses4xx := m.responses4xx + 1 }
    beginSendBuf o io c badRequest .send

/-- `handle_http_bytes` up to the fan-out; the flag says whether that follows. -/
def handleHttpBytes (o : LoopOpts η) (env : LoopEnv η P υ ω) (io : LoopIo P υ) (c : Conn η ω)
    (data : Bytes) : LoopIo P υ × Conn η ω × ℤ × Bool :=
  if data = [] then
    let r := beginBadRequestPlain o io c
    (r.1, r.2.1, if r.2.2 ≠ 0 then -1 else 0, false)
  else
    match c.http with
    | none => (io, c, -1, false)
    | some http =>
      let served := edgeHttp1ServeFeed env.serve http io.world data o.sendCap
      let io := { io with world := served.world, fed := io.fed ++ [(c.born, data)] }
      let c := { c with http := some served.serve }
      if served.ret < 0 then (io, c, -1, false)
      else if served.ret = 0 then
        let r := submitRecv o io c
        (r.1, r.2.1, r.2.2, false)
      else
        let c := { c with keepWs := served.serve.wsUpgrade }
        let r := beginSendBuf o io c served.out .send
        if r.2.2 ≠ 0 then (r.1, r.2.1, -1, false) else (r.1, r.2.1, 0, !r.2.1.keepWs)

/-! ## Accepting -/

/-- The first free slot, where `alloc_conn` puts a connection. -/
def freeSlot (conns : List (Conn η ω)) : Option ℕ := conns.findIdx? fun c => c.state = .free

/-- `alloc_conn` at a free slot: the connection, and whether it is complete. -/
def allocConn (o : LoopOpts η) (env : LoopEnv η P υ ω) (slot born : ℕ) : Conn η ω × Bool :=
  let c : Conn η ω := { Conn.idle slot with state := .recv, born := born }
  if !env.allocSendBuf then (c, false)
  else if !env.allocServe then (c, false)
  else ({ c with sendBuf := some [], http := some o.newServe }, true)

/-- `accept_one`. -/
def acceptOne (o : LoopOpts η) (env : LoopEnv η P υ ω) (srv : Server η P υ ω) (clientFd : ℕ) :
    Server η P υ ω :=
  if !env.nonblock then srv
  else
    let reject (srv : Server η P υ ω) :=
      { srv with io := srv.io.count fun m => { m with rejects := m.rejects + 1 } }
    match freeSlot srv.conns with
    | none => reject srv
    | some i =>
      let (c, complete) := allocConn o env i srv.births
      let srv := { srv with births := srv.births + 1 }
      if !complete then reject { srv with conns := srv.conns.set i c }
      else
        let io := srv.io.count fun m =>
          { m with accepts := m.accepts + 1, activeConns := m.activeConns + 1 }
        let r := closeOnError (submitRecv o io { c with fd := some clientFd })
        { srv with acceptsDone := srv.acceptsDone + 1, io := r.1, conns := srv.conns.set i r.2 }

/-- `submit_accept`. -/
def submitAccept (o : LoopOpts η) (srv : Server η P υ ω) : Server η P υ ω :=
  if srv.acceptPending then srv
  else if o.maxAccepts > 0 ∧ srv.acceptsDone ≥ o.maxAccepts then srv
  else
    match getSqe o srv.io ⟨.accept, 0, 0⟩ with
    | none => srv
    | some io => { srv with io, acceptPending := true }

/-! ## The loop -/

/-- The fan-out over all slots of a server. -/
def flushAll (o : LoopOpts η) (env : LoopEnv η P υ ω) (srv : Server η P υ ω) : Server η P υ ω :=
  let r := wsFlushAllPending o env srv.io srv.conns
  { srv with io := r.1, conns := r.2 }

/-- Put a connection back. -/
def Server.put (srv : Server η P υ ω) (r : LoopIo P υ × Conn η ω) : Server η P υ ω :=
  { srv with io := r.1, conns := srv.conns.set r.2.slot r.2 }

/-- A RECV completion of a connection; a result of at least 0 is the length of the data. -/
def onRecv (o : LoopOpts η) (env : LoopEnv η P υ ω) (srv : Server η P υ ω) (c : Conn η ω)
    (res : Except ℤ Bytes) : Server η P υ ω :=
  match c.state, res with
  | .wsRecv, .error _ => srv.put (closeConn srv.io { c with recvPending := false })
  | .wsRecv, .ok [] => srv.put (closeConn srv.io { c with recvPending := false })
  | .wsRecv, .ok data =>
    let (io, c, rc) := handleWsRecv o env srv.io { c with recvPending := false } data
    if rc ≠ 0 then srv.put (closeConn io c)
    else if c.state = .wsRecv ∧ !c.recvPending then srv.put (closeOnError (submitRecv o io c))
    else srv.put (io, c)
  | .recv, .error _ => srv.put (closeConn srv.io { c with recvPending := false })
  | .recv, .ok data =>
    let (io, c, rc, flush) := handleHttpBytes o env srv.io { c with recvPending := false } data
    let srv := srv.put (closeOnError (io, c, rc))
    if flush then flushAll o env srv else srv
  | _, _ => srv

/-- A SEND completion of a connection. -/
def onSend (o : LoopOpts η) (env : LoopEnv η P υ ω) (srv : Server η P υ ω) (c : Conn η ω)
    (res : Except ℤ ℕ) : Server η P υ ω :=
  match res with
  | .error _ => srv.put (closeConn srv.io { c with sendPending := false })
  | .ok n =>
    let io := srv.io.count fun m => { m with bytesOut := m.bytesOut + UInt64.ofNat n }
    let c := { c with sendPending := false, sendOff := c.sendOff + n }
    if c.sendOff ≥ (c.sendBuf.getD []).length then
      srv.put (closeOnError (handleSendComplete o env io c))
    else srv.put (closeOnError (submitSend o io c))

/-- An ACCEPT completion. -/
def onAccept (o : LoopOpts η) (env : LoopEnv η P υ ω) (srv : Server η P υ ω) (res : Except ℤ ℕ) :
    Server η P υ ω :=
  let srv := { srv with acceptPending := false }
  submitAccept o (match res with
    | .ok clientFd => acceptOne o env srv clientFd
    | .error _ => srv)

/-- A completion goes to whatever connection its slot holds; for a free slot it is a late one. -/
def atSlot (srv : Server η P υ ω) (slot : ℕ) (f : Conn η ω → Server η P υ ω) : Server η P υ ω :=
  match srv.conns[slot]? with
  | none => srv
  | some c => if c.state = .free then srv else f c

/-- The wait timed out: a fan-out, and from time to time a scrape. -/
def onTimeout (o : LoopOpts η) (env : LoopEnv η P υ ω) (srv : Server η P υ ω) : Server η P υ ω :=
  let srv := flushAll o env srv
  match srv.io.world.store with
  | none => srv
  | some st =>
    if !o.pqCfg.enabled then srv
    else
      let srv := { srv with tick := srv.tick + 200 }
      if srv.tick - srv.lastScrapeMs ≥ o.pqCfg.scrapeIntervalMs.toUInt64 then
        let r := edgePqSidecarScrapeOnce env.scrape o.pqCfg st srv.io.world.hub
        let world := { srv.io.world with store := some r.1, hub := r.2.1 }
        flushAll o env { srv with lastScrapeMs := srv.tick, io := { srv.io with world } }
      else srv

/-- `io_uring_submit`, of which the kernel takes the first entries. -/
def ioUringSubmit (srv : Server η P υ ω) (taken : ℕ) : Server η P υ ω :=
  { srv with
    inFlight := srv.inFlight ++ srv.io.sq.take taken
    io := { srv.io with sq := srv.io.sq.drop taken } }

/-- What the wait for a completion brings: the completion of an operation, or nothing. An error is a
result below 0; `taken` is how many entries the submission then takes. -/
inductive LoopEvent (η P υ ω : Type*) where
  | accepted (env : LoopEnv η P υ ω) (res : Except ℤ ℕ) (taken : ℕ)
  | received (env : LoopEnv η P υ ω) (slot owner : ℕ) (res : Except ℤ Bytes) (taken : ℕ)
  | sent (env : LoopEnv η P υ ω) (slot owner : ℕ) (res : Except ℤ ℕ) (taken : ℕ)
  | timeout (env : LoopEnv η P υ ω) (taken : ℕ)

/-- `should_stop`, without a stop flag. -/
def shouldStop (o : LoopOpts η) (srv : Server η P υ ω) : Bool :=
  o.maxAccepts > 0 && srv.acceptsDone ≥ o.maxAccepts && !srv.acceptPending
    && srv.conns.all fun c => c.state = .free

/-- The completion of an operation; only what is in flight completes, and once. -/
def completeOp (o : LoopOpts η) (srv : Server η P υ ω) (sqe : Sqe) (taken : ℕ)
    (f : Server η P υ ω → Server η P υ ω) : Server η P υ ω :=
  if shouldStop o srv ∨ sqe ∉ srv.inFlight then srv
  else ioUringSubmit (f { srv with inFlight := srv.inFlight.erase sqe }) taken

/-- One turn of the loop. -/
def loopStep (o : LoopOpts η) (srv : Server η P υ ω) : LoopEvent η P υ ω → Server η P υ ω
  | .accepted env res taken =>
    completeOp o srv ⟨.accept, 0, 0⟩ taken fun srv => onAccept o env srv res
  | .received env slot owner res taken =>
    completeOp o srv ⟨.recv, slot, owner⟩ taken fun srv =>
      atSlot srv slot fun c => onRecv o env srv c res
  | .sent env slot owner res taken =>
    completeOp o srv ⟨.send, slot, owner⟩ taken fun srv =>
      atSlot srv slot fun c => onSend o env srv c res
  | .timeout env taken =>
    if shouldStop o srv then srv else ioUringSubmit (onTimeout o env srv) taken

/-- The server when the loop begins: free slots, and the first accept in flight. -/
def loopStart (maxConns : ℕ) (world : ServeWorld P υ) : Server η P υ ω where
  conns := (List.range maxConns).map Conn.idle
  io := { world, sq := [], fed := [] }
  inFlight := [⟨.accept, 0, 0⟩]
  acceptsDone := 0
  acceptPending := true
  tick := 0
  lastScrapeMs := 0
  births := 0

end Edgehost
