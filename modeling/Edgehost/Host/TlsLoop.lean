import Edgehost.Host.IouringLoop

/-!
# The event loop with TLS (`iouring_loop.c`, `tls_server.c`)

`edge_iouring_run` in full: a connection either has an `SSL`, and then waits by polls and reads and
writes through it, or is plain, and then submits receives and sends. All connections of one server
are of the same kind. `LoopSimulation` joins it to the plain loop of `IouringLoop`.

What the kernel and OpenSSL answer is a parameter of each step. Of OpenSSL the model keeps the
decrypted bytes that were not read yet: a read takes at most its length of them, and a whole record
off the socket when there are none.

Sends and completions call each other, so the functions on the way from `submit_send` back to itself
take it as an argument (`send`), and `tlsDriveWrite` closes the loop along the answers of
`SSL_write`. The members of a connection's `log` are read by no code; they are there for the
statements.
-/

namespace Edgehost.Tls

/-! ## Operations and connections -/

/-- `OP_ACCEPT`, `OP_RECV`, `OP_SEND`, `OP_POLL` with the direction polled for. -/
inductive LoopOp where
  | accept
  | recv
  | send
  | poll (wantWrite : Bool)
  deriving DecidableEq

/-- An operation: its slot, and the connection that submitted it. -/
structure Sqe where
  op : LoopOp
  slot : ℕ
  owner : ℕ
  deriving DecidableEq

/-- `conn_state_t`. -/
inductive ConnState where
  | free
  | tlsHs
  | recv
  | send
  | wsRecv
  | wsSend
  deriving DecidableEq

/-- An `SSL`, as far as reading goes: `pending` is what `SSL_pending` counts. -/
structure Ssl where
  pending : Bytes
  deriving DecidableEq

/-- A response or a frame: the buffer as it was when its send began, and what went out of it. -/
structure Sending where
  buf : Bytes
  wire : Bytes
  deriving DecidableEq

/-- The history of a connection: its earlier sends and the last one, whether the current buffer was
offered to `SSL_write` and what direction that asked for, the direction of the last poll, and whether
an I/O operation or a submission has failed. -/
structure ConnLog where
  past : List Sending
  last : Option Sending
  offered : Bool
  wanted : Bool
  armed : Bool
  broken : Bool
  deriving DecidableEq

/-- `conn_t`. `sendBuf` is the memory at `send_buf` as far as it was written, `none` for NULL. -/
structure Conn (η ω : Type*) where
  fd : Option ℕ
  state : ConnState
  slot : ℕ
  recvPending : Bool
  sendPending : Bool
  pollPending : Bool
  sendBuf : Option Bytes
  sendLen : ℕ
  sendOff : ℕ
  http : Option (EdgeHttp1Serve η)
  ws : Option ω
  keepWs : Bool
  ssl : Option Ssl
  born : ℕ
  log : ConnLog

/-- The size of `recv_buf`. -/
def RECV_BUF : ℕ := 4096

/-! ## What the system does -/

/-- What `SSL_do_handshake` comes to. -/
inductive HandshakeAnswer where
  | done
  | want (write : Bool)
  | failed
  deriving DecidableEq

/-- What `SSL_read` finds on the socket. A record that carries data is not empty. -/
inductive RecordAnswer where
  | record (b : UInt8) (bs : Bytes)
  | want (write : Bool)
  | eof
  | failed
  deriving DecidableEq

/-- What `SSL_write` does: it takes one byte and up to `n` more, or nothing. -/
inductive WriteAnswer where
  | wrote (n : ℕ)
  | want (write : Bool)
  | failed
  deriving DecidableEq

/-- The answers of OpenSSL to one connection in one step. `writes` are those of `SSL_write` in
order; after them it fails. -/
structure SslAnswers where
  handshake : HandshakeAnswer
  record : RecordAnswer
  writes : List WriteAnswer
  deriving DecidableEq

/-- What the system and the libraries do in one step; `newSsl` says whether `edge_tls_conn_new_fd`
finds memory. -/
structure LoopEnv (η P υ ω : Type*) extends Edgehost.LoopEnv η P υ ω where
  newSsl : Bool
  ssl : ℕ → SslAnswers

/-- What the connections share. -/
structure LoopIo (P υ : Type*) where
  world : ServeWorld P υ
  sq : List Sqe

variable {η P υ ω : Type*}

/-- Count in the metrics. -/
def LoopIo.count (io : LoopIo P υ) (f : EdgeMetrics → EdgeMetrics) : LoopIo P υ :=
  { io with world := { io.world with metrics := io.world.metrics.map f } }

/-- `io_uring_get_sqe` and the preparation of the entry. -/
def getSqe (o : LoopOpts η) (io : LoopIo P υ) (sqe : Sqe) : Option (LoopIo P υ) :=
  if io.sq.length < o.ringEntries then some { io with sq := io.sq ++ [sqe] } else none

/-! ## History -/

/-- Something failed. -/
def Conn.broke (c : Conn η ω) : Conn η ω := { c with log := { c.log with broken := true } }

/-- The next `n` bytes of the buffer go out. -/
def Conn.advance (c : Conn η ω) (n : ℕ) : Conn η ω :=
  -- What the buffer holds now, and not what it held when the send began.
  let out := (((c.sendBuf.getD []).take c.sendLen).drop c.sendOff).take n
  { c with
    sendOff := c.sendOff + n
    log := { c.log with last := c.log.last.map fun s => { s with wire := s.wire ++ out } } }

/-- Bytes written to the front of the send buffer. -/
def Conn.writeBuf (c : Conn η ω) (bs : Bytes) : Conn η ω :=
  { c with sendBuf := c.sendBuf.map fun buf => bs ++ buf.drop bs.length }

/-! ## TLS (`tls_server.c`) -/

/-- The result of `edge_tls_read`: more than 0, 0 with the direction, -2, -1. -/
inductive TlsRead where
  | data (bs : Bytes)
  | want (write : Bool)
  | eof
  | failed

/-- `edge_tls_read`. -/
def edgeTlsRead (ssl : Ssl) (len : ℕ) (answer : RecordAnswer) : Ssl × TlsRead :=
  -- Without looking at the socket.
  if ssl.pending ≠ [] then (⟨ssl.pending.drop len⟩, .data (ssl.pending.take len))
  else
    match answer with
    | .record b bs => (⟨(b :: bs).drop len⟩, .data ((b :: bs).take len))
    | .want write => (ssl, .want write)
    | .eof => (ssl, .eof)
    | .failed => (ssl, .failed)

/-! ## Submitting -/

/-- `submit_poll`. -/
def submitPoll (o : LoopOpts η) (io : LoopIo P υ) (c : Conn η ω) (wantWrite : Bool) :
    LoopIo P υ × Conn η ω × ℤ :=
  if c.pollPending then (io, c, 0)
  else
    match getSqe o io ⟨.poll wantWrite, c.slot, c.born⟩ with
    | none => (io, c.broke, -1)
    | some io => (io, { c with pollPending := true, log := { c.log with armed := wantWrite } }, 0)

/-- `submit_recv`. -/
def submitRecv (o : LoopOpts η) (io : LoopIo P υ) (c : Conn η ω) : LoopIo P υ × Conn η ω × ℤ :=
  if c.recvPending ∨ c.pollPending ∨ c.state ≠ .recv ∧ c.state ≠ .wsRecv ∧ c.state ≠ .tlsHs then
    (io, c, 0)
  else if c.ssl.isSome then submitPoll o io c false
  else
    match getSqe o io ⟨.recv, c.slot, c.born⟩ with
    | none => (io, c.broke, -1)
    | some io => (io, { c with recvPending := true }, 0)

/-- `submit_send`; `drive` is `tls_drive_write`. -/
def submitSendBy (o : LoopOpts η) (drive : LoopIo P υ → Conn η ω → LoopIo P υ × Conn η ω × ℤ)
    (io : LoopIo P υ) (c : Conn η ω) : LoopIo P υ × Conn η ω × ℤ :=
  -- A poll in flight stops a send, whatever it was armed for.
  if c.sendPending ∨ c.pollPending ∨ c.sendOff ≥ c.sendLen then (io, c, 0)
  else if c.ssl.isSome then drive io c
  else
    match getSqe o io ⟨.send, c.slot, c.born⟩ with
    | none => (io, c.broke, -1)
    | some io => (io, { c with sendPending := true }, 0)

/-- `close_conn`. -/
def closeConn (io : LoopIo P υ) (c : Conn η ω) : LoopIo P υ × Conn η ω :=
  if c.state = .free then (io, c)
  else
    let io := { io with world :=
      { io.world with hub := io.world.hub.map fun h => edgeWsHubUnsubscribe h c.slot } }
    -- The counter goes down only with a descriptor.
    let io := match c.fd with
      | some _ =>
        io.count fun m => { m with activeConns := if m.activeConns > 0 then m.activeConns - 1 else 0 }
      | none => io
    (io, { c with
      fd := none
      state := .free
      recvPending := false
      sendPending := false
      pollPending := false
      sendBuf := none
      sendLen := 0
      sendOff := 0
      http := none
      ws := none
      keepWs := false
      ssl := none })

/-- Close the connection if the handler failed. -/
def closeOnError (r : LoopIo P υ × Conn η ω × ℤ) : LoopIo P υ × Conn η ω :=
  if r.2.2 ≠ 0 then closeConn r.1 r.2.1 else (r.1, r.2.1)

/-! ## Sends and what follows them -/

section Sends

variable (send : LoopIo P υ → Conn η ω → LoopIo P υ × Conn η ω × ℤ)

/-- `begin_send_buf`. -/
def beginSendBuf (io : LoopIo P υ) (c : Conn η ω) (len : ℕ) (st : ConnState) :
    LoopIo P υ × Conn η ω × ℤ :=
  send io { c with
    sendLen := len
    sendOff := 0
    state := st
    log := { c.log with
      past := c.log.past ++ c.log.last.toList
      last := some ⟨(c.sendBuf.getD []).take len, []⟩
      offered := false } }

/-- `begin_send_buf` for a frame in the buffer. -/
def sendFrame (io : LoopIo P υ) (c : Conn η ω) (len : ℕ) : LoopIo P υ × Conn η ω × ℤ :=
  let r := beginSendBuf send io c len .wsSend
  (r.1, r.2.1, if r.2.2 = 0 then 1 else -1)

/-- `ws_flush_output`. -/
def wsFlushOutput (o : LoopOpts η) (env : LoopEnv η P υ ω) (io : LoopIo P υ) (c : Conn η ω) :
    LoopIo P υ × Conn η ω × ℤ :=
  match c.ws with
  | none => (io, c, 0)
  | some ws =>
    if c.sendPending ∨ c.state = .wsSend then (io, c, 0)
    else
      let (frame, ws) := env.ws.getOutput ws o.sendCap
      let c := { c with ws := some ws }.writeBuf frame
      if frame = [] then (io, c, 0)
      else if frame.length ≥ o.sendCap then (io, c, -1)
      else sendFrame send io c frame.length

/-- The first message that waits for a slot. -/
def takePending (io : LoopIo P υ) (slot : ℕ) : LoopIo P υ × ℤ × Bytes :=
  match io.world.hub with
  | none => (io, -1, [])
  | some h =>
    let r := edgeWsHubTakePending h slot EDGE_WS_MSG_MAX
    ({ io with world := { io.world with hub := some r.1 } }, r.2)

/-- `ws_try_send_pending`. -/
def wsTrySendPending (o : LoopOpts η) (env : LoopEnv η P υ ω) (io : LoopIo P υ) (c : Conn η ω) :
    LoopIo P υ × Conn η ω × ℤ :=
  if c.ws.isNone ∨ io.world.hub.isNone ∨ c.state = .wsSend ∨ c.sendPending then (io, c, 0)
  else
    let (io, c, rc) := wsFlushOutput send o env io c
    if rc ≠ 0 then (io, c, rc)
    else
      let (io, taken, text) := takePending io c.slot
      if taken ≠ 1 then (io, c, if taken < 0 then -1 else 0)
      else
        match c.ws.bind (env.ws.sendText · text) with
        | none => (io, c, -1)
        | some ws =>
          let (frame, ws) := env.ws.getOutput ws o.sendCap
          let c := { c with ws := some ws }.writeBuf frame
          if frame = [] ∨ frame.length ≥ o.sendCap then (io, c, -1)
          else sendFrame send io c frame.length

/-- `promote_to_ws`. -/
def promoteToWs (o : LoopOpts η) (env : LoopEnv η P υ ω) (io : LoopIo P υ) (c : Conn η ω) :
    LoopIo P υ × Conn η ω × ℤ :=
  match env.ws.create, io.world.hub with
  | some ws, some h =>
    let r := edgeWsHubSubscribe h c.slot
    if r.2 ≠ 0 then (io, { c with ws := none }, -1)
    else
      let io := { io with world := { io.world with hub := some r.1 } }
      let c := { c with ws := some ws, keepWs := false, state := .wsRecv, http := none }
      let (io, c, rc) := submitRecv o io c
      if rc ≠ 0 then (io, c, -1)
      else
        -- The result of the first fan-out is not looked at.
        let r := wsTrySendPending send o env io c
        (r.1, r.2.1, 0)
  | some _, none => (io, { c with ws := none }, -1)
  | none, _ => (io, { c with ws := none }, -1)

/-- `handle_send_complete`. -/
def handleSendComplete (o : LoopOpts η) (env : LoopEnv η P υ ω) (io : LoopIo P υ) (c : Conn η ω) :
    LoopIo P υ × Conn η ω × ℤ :=
  if c.state = .send ∧ c.keepWs then promoteToWs send o env io c
  else if c.state = .wsSend then
    let (io, c, rc) := wsTrySendPending send o env io { c with state := .wsRecv }
    -- A failure of the fan-out is not reported.
    if rc = 0 ∧ !c.recvPending ∧ !c.pollPending then submitRecv o io c else (io, c, 0)
  else
    let r := closeConn io c
    (r.1, r.2, 0)

end Sends

/-- `tls_drive_write`, along the answers of `SSL_write`. -/
def tlsDriveWrite (o : LoopOpts η) (env : LoopEnv η P υ ω) :
    List WriteAnswer → LoopIo P υ → Conn η ω → LoopIo P υ × Conn η ω × ℤ
  | [], io, c =>
    if c.ssl.isNone ∨ c.sendOff ≥ c.sendLen then (io, c, 0) else (io, c.broke, -1)
  | answer :: answers, io, c =>
    if c.ssl.isNone ∨ c.sendOff ≥ c.sendLen then (io, c, 0)
    else
      let c := { c with log := { c.log with offered := true } }
      match answer with
      | .failed => (io, c.broke, -1)
      | .want write => submitPoll o io { c with log := { c.log with wanted := write } } write
      | .wrote n =>
        -- At least one byte, and at most what is left.
        let n := min (n + 1) (c.sendLen - c.sendOff)
        let io := io.count fun m => { m with bytesOut := m.bytesOut + UInt64.ofNat n }
        let c := c.advance n
        if c.sendOff ≥ c.sendLen then
          handleSendComplete (submitSendBy o (tlsDriveWrite o env answers)) o env io c
        else tlsDriveWrite o env answers io c

/-- `submit_send`. -/
def submitSend (o : LoopOpts η) (env : LoopEnv η P υ ω) (io : LoopIo P υ) (c : Conn η ω) :
    LoopIo P υ × Conn η ω × ℤ :=
  submitSendBy o (tlsDriveWrite o env (env.ssl c.slot).writes) io c

/-! ## Input -/

/-- `handle_ws_recv`. -/
def handleWsRecv (o : LoopOpts η) (env : LoopEnv η P υ ω) (io : LoopIo P υ) (c : Conn η ω)
    (data : Bytes) : LoopIo P υ × Conn η ω × ℤ :=
  match c.ws with
  | none => (io, c, -1)
  | some ws =>
    let (evs, ws) := env.ws.feedInput ws data
    let io := io.count fun m => { m with bytesIn := m.bytesIn + UInt64.ofNat data.length }
    let (ws, rc) := wsEvents env.toLoopEnv evs ws
    let c := { c with ws := some ws }
    if rc ≠ 0 then (io, c, -1)
    else if c.state = .wsRecv ∧ !c.sendPending then
      let r := wsFlushOutput (submitSend o env) o env io c
      (r.1, r.2.1, if r.2.2 < 0 then -1 else 0)
    else (io, c, 0)

/-- `begin_bad_request_plain`. -/
def beginBadRequestPlain (o : LoopOpts η) (env : LoopEnv η P υ ω) (io : LoopIo P υ)
    (c : Conn η ω) : LoopIo P υ × Conn η ω × ℤ :=
  if c.sendBuf.isNone ∨ badRequest.length ≥ o.sendCap then (io, c, -1)
  else
    let io := io.count fun m =>
      { m with requests := m.requests + 1, responses4xx := m.responses4xx + 1 }
    beginSendBuf (submitSend o env) io (c.writeBuf badRequest) badRequest.length .send

/-- `handle_http_bytes` up to the fan-out; the flag says whether that follows. -/
def handleHttpBytes (o : LoopOpts η) (env : LoopEnv η P υ ω) (io : LoopIo P υ) (c : Conn η ω)
    (data : Bytes) : LoopIo P υ × Conn η ω × ℤ × Bool :=
  if data = [] then
    let r := beginBadRequestPlain o env io c
    (r.1, r.2.1, if r.2.2 ≠ 0 then -1 else 0, false)
  else
    match c.http with
    | none => (io, c, -1, false)
    | some http =>
      let served := edgeHttp1ServeFeed env.serve http io.world data o.sendCap
      let io := { io with world := served.world }
      let c := { c with http := some served.serve }.writeBuf served.out
      if served.ret < 0 then (io, c, -1, false)
      else if served.ret = 0 then
        let r := submitRecv o io c
        (r.1, r.2.1, r.2.2, false)
      else
        let c := { c with keepWs := served.serve.wsUpgrade }
        let r := beginSendBuf (submitSend o env) io c served.out.length .send
        if r.2.2 ≠ 0 then (r.1, r.2.1, -1, false) else (r.1, r.2.1, 0, !r.2.1.keepWs)

/-- The result of a handler after which no fan-out follows. -/
def noFanOut (r : LoopIo P υ × Conn η ω × ℤ) : LoopIo P υ × Conn η ω × ℤ × Bool :=
  (r.1, r.2.1, r.2.2, false)

/-- `handle_tls_poll` during the handshake. -/
def pollHandshake (o : LoopOpts η) (env : LoopEnv η P υ ω) (io : LoopIo P υ) (c : Conn η ω) :
    LoopIo P υ × Conn η ω × ℤ :=
  match (env.ssl c.slot).handshake with
  | .done => submitRecv o io { c with state := .recv }
  | .want write => submitPoll o io c write
  | .failed => (io, c.broke, -1)

/-- `handle_tls_poll` while a request comes in. -/
def pollHttp (o : LoopOpts η) (env : LoopEnv η P υ ω) (io : LoopIo P υ) (c : Conn η ω) (ssl : Ssl) :
    LoopIo P υ × Conn η ω × ℤ × Bool :=
  let (ssl, read) := edgeTlsRead ssl RECV_BUF (env.ssl c.slot).record
  let c := { c with ssl := some ssl }
  match read with
  | .data data => handleHttpBytes o env io c data
  | .want write => noFanOut (submitPoll o io c write)
  | .eof => noFanOut (beginBadRequestPlain o env io c)
  | .failed => (io, c.broke, -1, false)

/-- What follows when a WebSocket connection that is not sending has read data. -/
def pollWsData (o : LoopOpts η) (env : LoopEnv η P υ ω) (io : LoopIo P υ) (c : Conn η ω)
    (data : Bytes) : LoopIo P υ × Conn η ω × ℤ :=
  let r := handleWsRecv o env io c data
  if r.2.2 ≠ 0 then (r.1, r.2.1, -1)
  else if r.2.1.state = .wsRecv ∧ !r.2.1.recvPending ∧ !r.2.1.pollPending then submitRecv o r.1 r.2.1
  else (r.1, r.2.1, 0)

/-- `handle_tls_poll` of a WebSocket connection that is not sending. -/
def pollWs (o : LoopOpts η) (env : LoopEnv η P υ ω) (io : LoopIo P υ) (c : Conn η ω) (ssl : Ssl) :
    LoopIo P υ × Conn η ω × ℤ :=
  let (ssl, read) := edgeTlsRead ssl RECV_BUF (env.ssl c.slot).record
  let c := { c with ssl := some ssl }
  match read with
  | .data data => pollWsData o env io c data
  | .want write => submitPoll o io c write
  | .eof => (io, c, -1)
  | .failed => (io, c.broke, -1)

/-- `handle_tls_poll` of a connection with an `SSL`; the flag is that of `handle_http_bytes`. -/
def handleTlsPoll (o : LoopOpts η) (env : LoopEnv η P υ ω) (io : LoopIo P υ) (c : Conn η ω)
    (ssl : Ssl) : LoopIo P υ × Conn η ω × ℤ × Bool :=
  match c.state with
  | .free => (io, c, 0, false)
  | .tlsHs => noFanOut (pollHandshake o env io c)
  | .recv => pollHttp o env io c ssl
  | .wsRecv => noFanOut (pollWs o env io c ssl)
  | .send => noFanOut (tlsDriveWrite o env (env.ssl c.slot).writes io c)
  | .wsSend => noFanOut (tlsDriveWrite o env (env.ssl c.slot).writes io c)

/-! ## What happens to a connection -/

/-- A RECV completion of a WebSocket connection that is not sending. -/
def recvWs (o : LoopOpts η) (env : LoopEnv η P υ ω) (io : LoopIo P υ) (c : Conn η ω) (data : Bytes) :
    LoopIo P υ × Conn η ω × ℤ :=
  let r := handleWsRecv o env io c data
  if r.2.2 ≠ 0 then (r.1, r.2.1, -1)
  else if r.2.1.state = .wsRecv ∧ !r.2.1.recvPending then submitRecv o r.1 r.2.1
  else (r.1, r.2.1, 0)

/-- A RECV completion; a result of at least 0 is the length of the data. The flag says whether a
fan-out follows. -/
def onRecv (o : LoopOpts η) (env : LoopEnv η P υ ω) (io : LoopIo P υ) (c : Conn η ω)
    (res : Except ℤ Bytes) : LoopIo P υ × Conn η ω × Bool :=
  let still (r : LoopIo P υ × Conn η ω) : LoopIo P υ × Conn η ω × Bool := (r.1, r.2, false)
  match c.state, res with
  | .wsRecv, .error _ => still (closeConn io { c.broke with recvPending := false })
  | .wsRecv, .ok [] => still (closeConn io { c with recvPending := false })
  | .wsRecv, .ok data => still (closeOnError (recvWs o env io { c with recvPending := false } data))
  | .recv, .error _ => still (closeConn io { c.broke with recvPending := false })
  | .recv, .ok data =>
    let (io, c, rc, flush) := handleHttpBytes o env io { c with recvPending := false } data
    let r := closeOnError (io, c, rc)
    (r.1, r.2, flush)
  | _, _ => (io, c, false)

/-- A SEND completion. -/
def onSend (o : LoopOpts η) (env : LoopEnv η P υ ω) (io : LoopIo P υ) (c : Conn η ω)
    (res : Except ℤ ℕ) : LoopIo P υ × Conn η ω :=
  if c.state = .free then (io, c)
  else
    match res with
    | .error _ => closeConn io { c.broke with sendPending := false }
    | .ok n =>
      let io := io.count fun m => { m with bytesOut := m.bytesOut + UInt64.ofNat n }
      let c := { c with sendPending := false }.advance n
      if c.sendOff ≥ c.sendLen then
        closeOnError (handleSendComplete (submitSend o env) o env io c)
      else closeOnError (submitSend o env io c)

/-- A POLL completion; `ok` says whether its result is at least 0. -/
def onPoll (o : LoopOpts η) (env : LoopEnv η P υ ω) (io : LoopIo P υ) (c : Conn η ω) (ok : Bool) :
    LoopIo P υ × Conn η ω × Bool :=
  if c.state = .free then (io, c, false)
  else if !ok then
    let r := closeConn io { c.broke with pollPending := false }
    (r.1, r.2, false)
  else
    let c := { c with pollPending := false }
    match c.ssl with
    | none => (io, c, false)
    | some ssl =>
      let (io, c, rc, flush) := handleTlsPoll o env io c ssl
      let r := closeOnError (io, c, rc)
      (r.1, r.2, flush)

/-- The body of the loop in `ws_flush_all_pending`. -/
def flushPending (o : LoopOpts η) (env : LoopEnv η P υ ω) (io : LoopIo P υ) (c : Conn η ω) :
    LoopIo P υ × Conn η ω :=
  if c.state = .wsRecv ∧ c.ws.isSome ∧ edgeWsHubIsSubscribed io.world.hub c.slot then
    let r := wsTrySendPending (submitSend o env) o env io c
    (r.1, r.2.1)
  else (io, c)

/-- A slot without a connection. -/
def Conn.idle (slot : ℕ) : Conn η ω where
  fd := none
  state := .free
  slot := slot
  recvPending := false
  sendPending := false
  pollPending := false
  sendBuf := none
  sendLen := 0
  sendOff := 0
  http := none
  ws := none
  keepWs := false
  ssl := none
  born := 0
  log := { past := [], last := none, offered := false, wanted := false, armed := false
           broken := false }

/-- A connection as `alloc_conn` leaves it when it has everything. -/
def newConn (o : LoopOpts η) (slot born : ℕ) : Conn η ω :=
  { (Conn.idle slot : Conn η ω) with
    state := .recv
    born := born
    sendBuf := some []
    http := some o.newServe }

/-- `alloc_conn` at a free slot: the connection, and whether it is complete. -/
def allocConn (o : LoopOpts η) (env : LoopEnv η P υ ω) (slot born : ℕ) : Conn η ω × Bool :=
  let c : Conn η ω := { Conn.idle slot with state := .recv, born := born }
  if !env.allocSendBuf then (c, false)
  else if !env.allocServe then (c, false)
  else (newConn o slot born, true)

/-- The connection is closed when the step failed. -/
def openedOr (r : LoopIo P υ × Conn η ω × ℤ) : LoopIo P υ × Conn η ω × ℤ :=
  if r.2.2 ≠ 0 then ((closeConn r.1 r.2.1).1, (closeConn r.1 r.2.1).2, -1) else (r.1, r.2.1, 0)

/-- The TLS part of `accept_one`. -/
def openTls (o : LoopOpts η) (env : LoopEnv η P υ ω) (io : LoopIo P υ) (c : Conn η ω) :
    LoopIo P υ × Conn η ω × ℤ :=
  if !env.newSsl then openedOr (io, c, -1)
  else
    let c := { c with ssl := some ⟨[]⟩, state := .tlsHs }
    openedOr (pollHandshake o env io c)

/-- `accept_one` once it has a connection; `tls` says whether the server has a TLS context. -/
def openConn (o : LoopOpts η) (env : LoopEnv η P υ ω) (tls : Bool) (io : LoopIo P υ) (c : Conn η ω)
    (clientFd : ℕ) : LoopIo P υ × Conn η ω × ℤ :=
  let io := io.count fun m => { m with accepts := m.accepts + 1, activeConns := m.activeConns + 1 }
  let c := { c with fd := some clientFd }
  if tls then openTls o env io c else openedOr (submitRecv o io c)

/-! ## One connection among others -/

/-- What happens to one connection of the loop. What the rest of the loop has made of the process and
of the ring in the meantime comes with the event. -/
inductive ConnEvent (η P υ ω : Type*) where
  | recv (env : LoopEnv η P υ ω) (io : LoopIo P υ) (res : Except ℤ Bytes)
  | send (env : LoopEnv η P υ ω) (io : LoopIo P υ) (res : Except ℤ ℕ)
  | poll (env : LoopEnv η P υ ω) (io : LoopIo P υ) (ok : Bool)
  | fanOut (env : LoopEnv η P υ ω) (io : LoopIo P υ)

/-- The connection after an event. -/
def connStep (o : LoopOpts η) (c : Conn η ω) : ConnEvent η P υ ω → Conn η ω
  | .recv env io res => (onRecv o env io c res).2.1
  | .send env io res => (onSend o env io c res).2
  | .poll env io ok => (onPoll o env io c ok).2.1
  | .fanOut env io => (flushPending o env io c).2

/-- A connection as `accept_one` leaves it. -/
def accepted (o : LoopOpts η) (env : LoopEnv η P υ ω) (tls : Bool) (io : LoopIo P υ)
    (slot born clientFd : ℕ) : Conn η ω :=
  (openConn o env tls io (newConn o slot born) clientFd).2.1

/-- A completion belongs to the connection: what completes is pending. -/
def Attributed (c : Conn η ω) : ConnEvent η P υ ω → Prop
  | .recv .. => c.recvPending = true
  | .send .. => c.sendPending = true
  | .poll .. => c.pollPending = true
  | .fanOut .. => True

instance (c : Conn η ω) : ∀ ev : ConnEvent η P υ ω, Decidable (Attributed c ev)
  | .recv .. => inferInstanceAs (Decidable (_ = _))
  | .send .. => inferInstanceAs (Decidable (_ = _))
  | .poll .. => inferInstanceAs (Decidable (_ = _))
  | .fanOut .. => inferInstanceAs (Decidable True)

/-! ## What a fan-out comes to -/

/-- The frame that the WebSocket has queued, in the send buffer. -/
def Conn.withFrame (o : LoopOpts η) (env : LoopEnv η P υ ω) (c : Conn η ω) (ws : ω) : Conn η ω :=
  Conn.writeBuf { c with ws := some (env.ws.getOutput ws o.sendCap).2 }
    (env.ws.getOutput ws o.sendCap).1

/-- There is nothing that `ws_try_send_pending` could send, or it may not send now. -/
def Skips (io : LoopIo P υ) (c : Conn η ω) : Prop :=
  c.ws.isNone ∨ io.world.hub.isNone ∨ c.state = .wsSend ∨ c.sendPending

/-- What `ws_try_send_pending` comes to: nothing, what `ws_flush_output` did, or a message of the hub, which
is not there, makes no frame, or is sent. -/
inductive TriedSend (send : LoopIo P υ → Conn η ω → LoopIo P υ × Conn η ω × ℤ) (o : LoopOpts η)
    (env : LoopEnv η P υ ω) (io : LoopIo P υ) (c : Conn η ω) : LoopIo P υ × Conn η ω × ℤ → Prop
  | skipped (hskip : Skips io c) : TriedSend send o env io c (io, c, 0)
  | flushed (hopen : ¬Skips io c) (hrc : (wsFlushOutput send o env io c).2.2 ≠ 0) :
      TriedSend send o env io c (wsFlushOutput send o env io c)
  | unsent {io₁ : LoopIo P υ} {c₁ : Conn η ω} (hopen : ¬Skips io c)
      (hflush : wsFlushOutput send o env io c = (io₁, c₁, 0)) (rc : ℤ) :
      TriedSend send o env io c ((takePending io₁ c₁.slot).1, c₁, rc)
  | cut {io₁ : LoopIo P υ} {c₁ : Conn η ω} (hopen : ¬Skips io c)
      (hflush : wsFlushOutput send o env io c = (io₁, c₁, 0)) (ws : ω) :
      TriedSend send o env io c ((takePending io₁ c₁.slot).1, c₁.withFrame o env ws, -1)
  | framed {io₁ : LoopIo P υ} {c₁ : Conn η ω} (hopen : ¬Skips io c)
      (hflush : wsFlushOutput send o env io c = (io₁, c₁, 0)) {ws : ω}
      (hone : (takePending io₁ c₁.slot).2.1 = 1)
      (hws : c₁.ws.bind (env.ws.sendText · (takePending io₁ c₁.slot).2.2) = some ws)
      (hfits : ¬((env.ws.getOutput ws o.sendCap).1 = [] ∨
        (env.ws.getOutput ws o.sendCap).1.length ≥ o.sendCap)) :
      TriedSend send o env io c (sendFrame send (takePending io₁ c₁.slot).1 (c₁.withFrame o env ws)
        (env.ws.getOutput ws o.sendCap).1.length)

/-- **What `ws_try_send_pending` does.** -/
theorem wsTrySendPending_tried (send : LoopIo P υ → Conn η ω → LoopIo P υ × Conn η ω × ℤ)
    (o : LoopOpts η) (env : LoopEnv η P υ ω) (io : LoopIo P υ) (c : Conn η ω) :
    TriedSend send o env io c (wsTrySendPending send o env io c) := by
  unfold wsTrySendPending
  by_cases hskip : c.ws.isNone ∨ io.world.hub.isNone ∨ c.state = .wsSend ∨ c.sendPending
  · rw [if_pos hskip]
    exact .skipped hskip
  rw [if_neg hskip]
  rcases hflush : wsFlushOutput send o env io c with ⟨io₁, c₁, rc⟩
  dsimp only
  by_cases hrc : rc ≠ 0
  · rw [if_pos hrc, ← hflush]
    exact .flushed hskip (by rwa [hflush])
  rw [if_neg hrc]
  obtain rfl := not_not.mp hrc
  by_cases hnone : (takePending io₁ c₁.slot).2.1 ≠ 1
  · rw [if_pos hnone]
    exact .unsent hskip hflush _
  rw [if_neg hnone]
  rcases hws : c₁.ws.bind (env.ws.sendText · (takePending io₁ c₁.slot).2.2) with _ | ws
  · exact .unsent hskip hflush _
  dsimp only
  by_cases hbad : (env.ws.getOutput ws o.sendCap).1 = [] ∨
      (env.ws.getOutput ws o.sendCap).1.length ≥ o.sendCap
  · rw [if_pos hbad]
    exact .cut hskip hflush ws
  · rw [if_neg hbad]
    exact .framed hskip hflush (not_not.mp hnone) hws hbad

end Edgehost.Tls
