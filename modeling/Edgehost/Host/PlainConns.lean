import Edgehost.Host.LoopOps
import Edgehost.Host.TlsServer

/-!
# A plain connection in the full loop

`edge_iouring_run` is translated twice. `Edgehost.Tls.loopStep` is the loop in full;
`Edgehost.loopStep` is what is left of it when the server has no TLS context. There a connection has
no `SSL`, so it never submits a poll, and of the send buffer it need only know what is to be sent.
This module joins the two as far as one connection goes; `LoopSimulation` takes that to the server.

* `Matches` says which connections of the full loop a plain connection stands for.
* `SameResult` says that two functions come to the same process, the same ring, the same connection
  and the same return value. Each function has it from the functions that it calls:
  `submitRecv_plain` to `handleHttpBytes_plain`.
-/

namespace Edgehost.Tls

variable {η P υ ω : Type*}

/-! ## A plain connection in the full loop -/

/-- An operation of the plain loop. -/
def LoopOp.ofPlain : Edgehost.LoopOp → LoopOp
  | .accept => .accept
  | .recv => .recv
  | .send => .send

/-- An entry of the plain loop. -/
def Sqe.ofPlain (sqe : Edgehost.Sqe) : Sqe := ⟨.ofPlain sqe.op, sqe.slot, sqe.owner⟩

/-- A state of a plain connection. -/
def ConnState.ofPlain : Edgehost.ConnState → ConnState
  | .free => .free
  | .recv => .recv
  | .send => .send
  | .wsRecv => .wsRecv
  | .wsSend => .wsSend

/-- What the connections of the plain loop share. -/
def LoopIo.ofPlain (io : Edgehost.LoopIo P υ) : LoopIo P υ where
  world := io.world
  sq := io.sq.map Sqe.ofPlain

/-- A plain connection, with what its send buffer holds in memory and with a history. -/
def Conn.ofPlain (c : Edgehost.Conn η ω) (mem : Bytes) (log : ConnLog) : Conn η ω where
  fd := c.fd
  state := .ofPlain c.state
  slot := c.slot
  recvPending := c.recvPending
  sendPending := c.sendPending
  pollPending := false
  sendBuf := c.sendBuf.map fun _ => mem
  sendLen := (c.sendBuf.getD []).length
  sendOff := c.sendOff
  http := c.http
  ws := c.ws
  keepWs := c.keepWs
  ssl := none
  born := c.born
  log := log

/-- Operations are told apart. -/
theorem LoopOp.ofPlain_injective : Function.Injective LoopOp.ofPlain := by
  intro a b h
  cases a <;> cases b <;> first | rfl | exact nomatch h

/-- Entries are told apart, so the ring holds one exactly when the other does. -/
theorem Sqe.ofPlain_injective : Function.Injective Sqe.ofPlain := by
  rintro ⟨op, slot, owner⟩ ⟨op', slot', owner'⟩ h
  obtain ⟨hop, hslot, howner⟩ := Sqe.mk.inj h
  obtain rfl := LoopOp.ofPlain_injective hop
  obtain rfl : slot = slot' := hslot
  obtain rfl : owner = owner' := howner
  rfl

@[simp] theorem ConnState.ofPlain_eq_free (s : Edgehost.ConnState) :
    ofPlain s = .free ↔ s = .free := by
  cases s <;> simp [ofPlain]

@[simp] theorem ConnState.ofPlain_eq_recv (s : Edgehost.ConnState) :
    ofPlain s = .recv ↔ s = .recv := by
  cases s <;> simp [ofPlain]

@[simp] theorem ConnState.ofPlain_eq_send (s : Edgehost.ConnState) :
    ofPlain s = .send ↔ s = .send := by
  cases s <;> simp [ofPlain]

@[simp] theorem ConnState.ofPlain_eq_wsRecv (s : Edgehost.ConnState) :
    ofPlain s = .wsRecv ↔ s = .wsRecv := by
  cases s <;> simp [ofPlain]

@[simp] theorem ConnState.ofPlain_eq_wsSend (s : Edgehost.ConnState) :
    ofPlain s = .wsSend ↔ s = .wsSend := by
  cases s <;> simp [ofPlain]

@[simp] theorem ConnState.ofPlain_ne_tlsHs (s : Edgehost.ConnState) : ofPlain s ≠ .tlsHs := by
  cases s <;> simp [ofPlain]

/-- While the connection sends, the memory begins with what is to be sent. -/
def Sends (c : Edgehost.Conn η ω) (mem : Bytes) : Prop :=
  c.state = .send ∨ c.state = .wsSend → ∀ buf, c.sendBuf = some buf → mem.take buf.length = buf

/-- What needs a send buffer has one. -/
def Buffered (c : Edgehost.Conn η ω) : Prop :=
  c.http.isSome ∨ c.ws.isSome ∨ c.keepWs = true → c.sendBuf.isSome

/-- `c` is the connection in slot `i`, and stands for `t`. -/
structure Matches (i : ℕ) (c : Edgehost.Conn η ω) (t : Conn η ω) : Prop where
  slot : c.slot = i
  buffered : Buffered c
  same : ∃ mem log, t = .ofPlain c mem log ∧ Sends c mem

/-- The two loops have come to the same process, the same ring and the same connection. -/
structure Mirrors (i : ℕ) (io : Edgehost.LoopIo P υ) (c : Edgehost.Conn η ω) (io' : LoopIo P υ)
    (t : Conn η ω) : Prop where
  io : io' = .ofPlain io
  conn : Matches i c t

/-- Two functions agree, and return the same. -/
structure SameResult {β : Type*} (i : ℕ) (r : Edgehost.LoopIo P υ × Edgehost.Conn η ω × β)
    (r' : LoopIo P υ × Conn η ω × β) : Prop where
  mirrors : Mirrors i r.1 r.2.1 r'.1 r'.2.1
  ret : r'.2.2 = r.2.2

section Functions

variable {i : ℕ} {o : LoopOpts η} {c : Edgehost.Conn η ω} {t : Conn η ω}

/-- With any history and any memory that holds what is sent. -/
theorem Matches.ofPlain {mem : Bytes} {log : ConnLog} (hslot : c.slot = i) (hbuf : Buffered c)
    (hsends : Sends c mem) : Matches i c (.ofPlain c mem log) :=
  ⟨hslot, hbuf, mem, log, rfl, hsends⟩

/-- The parts of results that are the same. -/
theorem SameResult.parts {β : Type*} {r : Edgehost.LoopIo P υ × Edgehost.Conn η ω × β}
    {r' : LoopIo P υ × Conn η ω × β} (h : SameResult i r r') :
    ∃ io c ret t, r = (io, c, ret) ∧ r' = (.ofPlain io, t, ret) ∧ Matches i c t := by
  obtain ⟨⟨hio, hconn⟩, hret⟩ := h
  exact ⟨r.1, r.2.1, r.2.2, r'.2.1, rfl, Prod.ext hio (Prod.ext rfl hret), hconn⟩

/-- Whatever the history is. -/
theorem Matches.of_eq (hslot : c.slot = i) (hbuf : Buffered c) (mem : Bytes) (hsends : Sends c mem)
    (ht : t = .ofPlain c mem t.log) : Matches i c t :=
  ⟨hslot, hbuf, mem, t.log, ht, hsends⟩

theorem Matches.state (h : Matches i c t) : t.state = .ofPlain c.state := by
  obtain ⟨-, -, mem, log, rfl, -⟩ := h
  exact rfl

theorem Matches.slot_eq (h : Matches i c t) : t.slot = i := by
  obtain ⟨hslot, -, mem, log, rfl, -⟩ := h
  exact hslot

theorem Matches.recvPending (h : Matches i c t) : t.recvPending = c.recvPending := by
  obtain ⟨-, -, mem, log, rfl, -⟩ := h
  exact rfl

theorem Matches.sendPending (h : Matches i c t) : t.sendPending = c.sendPending := by
  obtain ⟨-, -, mem, log, rfl, -⟩ := h
  exact rfl

theorem Matches.pollPending (h : Matches i c t) : t.pollPending = false := by
  obtain ⟨-, -, mem, log, rfl, -⟩ := h
  exact rfl

theorem Matches.http (h : Matches i c t) : t.http = c.http := by
  obtain ⟨-, -, mem, log, rfl, -⟩ := h
  exact rfl

theorem Matches.ws (h : Matches i c t) : t.ws = c.ws := by
  obtain ⟨-, -, mem, log, rfl, -⟩ := h
  exact rfl

theorem Matches.keepWs (h : Matches i c t) : t.keepWs = c.keepWs := by
  obtain ⟨-, -, mem, log, rfl, -⟩ := h
  exact rfl

/-! ## Submitting -/

/-- The rings are full at the same time. -/
theorem getSqe_ofPlain (o : LoopOpts η) (io : Edgehost.LoopIo P υ) (sqe : Edgehost.Sqe) :
    getSqe o (.ofPlain io) (.ofPlain sqe) = (Edgehost.getSqe o io sqe).map LoopIo.ofPlain := by
  unfold getSqe Edgehost.getSqe
  rw [show (LoopIo.ofPlain io).sq.length = io.sq.length from List.length_map _]
  split_ifs
  · simp [LoopIo.ofPlain]
  · rfl

/-- Without an `SSL` a receive is submitted and no poll. -/
theorem submitRecv_plain (o : LoopOpts η) (io : Edgehost.LoopIo P υ) (h : Matches i c t) :
    SameResult i (Edgehost.submitRecv o io c) (submitRecv o (.ofPlain io) t) := by
  obtain ⟨hslot, hbuf, mem, log, rfl, hsends⟩ := h
  unfold submitRecv Edgehost.submitRecv
  simp only [Conn.ofPlain, ne_eq, ConnState.ofPlain_eq_recv, ConnState.ofPlain_eq_wsRecv,
    ConnState.ofPlain_ne_tlsHs, not_false_eq_true, and_true, Bool.false_eq_true, false_or,
    Option.isSome_none, if_false]
  split_ifs
  · exact ⟨⟨rfl, .ofPlain hslot hbuf hsends⟩, rfl⟩
  · rw [show (⟨.recv, c.slot, c.born⟩ : Sqe) = .ofPlain ⟨.recv, c.slot, c.born⟩ from rfl,
      getSqe_ofPlain]
    cases Edgehost.getSqe o io ⟨.recv, c.slot, c.born⟩ with
    | none => exact ⟨⟨rfl, .ofPlain hslot hbuf hsends⟩, rfl⟩
    | some io' => exact ⟨⟨rfl, .ofPlain hslot hbuf hsends⟩, rfl⟩

/-- Without an `SSL` a send does not come to `tls_drive_write`. -/
theorem submitSend_plain (o : LoopOpts η) (env : LoopEnv η P υ ω) (io : Edgehost.LoopIo P υ)
    (h : Matches i c t) :
    SameResult i (Edgehost.submitSend o io c) (submitSend o env (.ofPlain io) t) := by
  obtain ⟨hslot, hbuf, mem, log, rfl, hsends⟩ := h
  unfold submitSend submitSendBy Edgehost.submitSend
  simp only [Conn.ofPlain, Bool.false_eq_true, false_or, Option.isSome_none, if_false]
  split_ifs
  · exact ⟨⟨rfl, .ofPlain hslot hbuf hsends⟩, rfl⟩
  · rw [show (⟨.send, c.slot, c.born⟩ : Sqe) = .ofPlain ⟨.send, c.slot, c.born⟩ from rfl,
      getSqe_ofPlain]
    cases Edgehost.getSqe o io ⟨.send, c.slot, c.born⟩ with
    | none => exact ⟨⟨rfl, .ofPlain hslot hbuf hsends⟩, rfl⟩
    | some io' => exact ⟨⟨rfl, .ofPlain hslot hbuf hsends⟩, rfl⟩

/-- The bytes are written to the front of the buffer in both loops. -/
theorem beginSendBuf_plain (o : LoopOpts η) (env : LoopEnv η P υ ω) (io : Edgehost.LoopIo P υ)
    (h : Matches i c t) (hsome : c.sendBuf.isSome) (buf : Bytes) (st : Edgehost.ConnState) :
    SameResult i (Edgehost.beginSendBuf o io c buf st)
      (beginSendBuf (submitSend o env) (.ofPlain io) (t.writeBuf buf) buf.length
        (.ofPlain st)) := by
  obtain ⟨hslot, hbuf, mem, log, rfl, hsends⟩ := h
  obtain ⟨old, hold⟩ := Option.isSome_iff_exists.mp hsome
  refine submitSend_plain o env io
    (.of_eq hslot (fun _ => rfl) (buf ++ mem.drop buf.length) ?_ ?_)
  · intro _ b hb
    obtain rfl := Option.some.inj hb
    exact List.take_left
  · simp only [Conn.ofPlain, Conn.writeBuf, hold]
    rfl

/-- A message of the hub is taken in both loops. -/
theorem takePending_ofPlain (io : Edgehost.LoopIo P υ) (slot : ℕ) :
    takePending (.ofPlain io) slot
      = (.ofPlain (Edgehost.takePending io slot).1, (Edgehost.takePending io slot).2) := by
  unfold takePending Edgehost.takePending
  rw [show (LoopIo.ofPlain io).world = io.world from rfl]
  cases io.world.hub <;> rfl

/-! ## Closing -/

/-- A connection is closed in both loops. -/
theorem closeConn_plain (io : Edgehost.LoopIo P υ) (h : Matches i c t) :
    Mirrors i (Edgehost.closeConn io c).1 (Edgehost.closeConn io c).2 (closeConn (.ofPlain io) t).1
      (closeConn (.ofPlain io) t).2 := by
  obtain ⟨hslot, hbuf, mem, log, rfl, hsends⟩ := h
  unfold closeConn Edgehost.closeConn
  simp only [Conn.ofPlain, ConnState.ofPlain_eq_free]
  split_ifs
  · exact ⟨rfl, .ofPlain hslot hbuf hsends⟩
  · refine ⟨?_, hslot, by simp [Buffered], mem, log, rfl, by simp [Sends]⟩
    cases c.fd <;> rfl

/-- It is closed for the same reason. -/
theorem closeOnError_plain {r : Edgehost.LoopIo P υ × Edgehost.Conn η ω × ℤ}
    {r' : LoopIo P υ × Conn η ω × ℤ} (h : SameResult i r r') :
    Mirrors i (Edgehost.closeOnError r).1 (Edgehost.closeOnError r).2 (closeOnError r').1
      (closeOnError r').2 := by
  unfold closeOnError Edgehost.closeOnError
  rw [h.ret, h.mirrors.io]
  split_ifs
  · exact closeConn_plain r.1 h.mirrors.conn
  · exact ⟨rfl, h.mirrors.conn⟩

/-! ## WebSocket connections -/

/-- Another state of the library. -/
theorem Matches.setWs (h : Matches i c t) (hsome : c.sendBuf.isSome) (ws : Option ω) :
    Matches i { c with ws } { t with ws } := by
  obtain ⟨hslot, hbuf, mem, log, rfl, hsends⟩ := h
  exact ⟨hslot, fun _ => hsome, mem, log, rfl, hsends⟩

/-- A connection that is not sending may have anything in its buffer. -/
theorem Matches.writeBuf (h : Matches i c t) (hidle : ¬(c.state = .send ∨ c.state = .wsSend))
    (bs : Bytes) : Matches i c (t.writeBuf bs) := by
  obtain ⟨hslot, hbuf, mem, log, rfl, hsends⟩ := h
  refine .of_eq hslot hbuf (bs ++ mem.drop bs.length) (fun h => absurd h hidle) ?_
  simp only [Conn.writeBuf, Conn.ofPlain, Option.map_map]
  rfl

/-- A frame goes out in both loops. -/
theorem sendFrame_plain (o : LoopOpts η) (env : LoopEnv η P υ ω) (io : Edgehost.LoopIo P υ)
    (h : Matches i c t) (hsome : c.sendBuf.isSome) (frame : Bytes) :
    SameResult i (Edgehost.sendFrame o io c frame)
      (sendFrame (submitSend o env) (.ofPlain io) (t.writeBuf frame) frame.length) := by
  have hbegin := beginSendBuf_plain o env io h hsome frame .wsSend
  refine ⟨hbegin.mirrors, ?_⟩
  simp only [sendFrame, Edgehost.sendFrame]
  rw [← hbegin.ret]
  rfl

/-- What the library has queued is sent, or the connection is left with it in the buffer. -/
theorem wsFlushOutput_plain (o : LoopOpts η) (env : LoopEnv η P υ ω) (io : Edgehost.LoopIo P υ)
    (h : Matches i c t) (hstate : c.state ≠ .send) :
    SameResult i (Edgehost.wsFlushOutput o env.toLoopEnv io c)
      (wsFlushOutput (submitSend o env) o env (.ofPlain io) t) := by
  unfold wsFlushOutput Edgehost.wsFlushOutput
  rw [h.ws]
  cases hlib : c.ws with
  | none => exact ⟨⟨rfl, h⟩, rfl⟩
  | some ws =>
    have hsome : c.sendBuf.isSome := h.buffered (.inr (.inl (by rw [hlib]; rfl)))
    have hset := h.setWs hsome (some (env.ws.getOutput ws o.sendCap).2)
    have hbusy : (t.sendPending = true ∨ t.state = .wsSend)
        ↔ (c.sendPending = true ∨ c.state = .wsSend) := by
      rw [h.sendPending, h.state, ConnState.ofPlain_eq_wsSend]
    simp only [hbusy]
    split_ifs with hb hempty hlong
    · exact ⟨⟨rfl, h⟩, rfl⟩
    · exact ⟨⟨rfl, hset.writeBuf (by simp_all) _⟩, rfl⟩
    · exact ⟨⟨rfl, hset.writeBuf (by simp_all) _⟩, rfl⟩
    · exact sendFrame_plain o env io hset hsome _

/-- First what is queued, then one message of the hub. -/
theorem wsTrySendPending_plain (o : LoopOpts η) (env : LoopEnv η P υ ω) (io : Edgehost.LoopIo P υ)
    (h : Matches i c t) (hstate : c.state ≠ .send) :
    SameResult i (Edgehost.wsTrySendPending o env.toLoopEnv io c)
      (wsTrySendPending (submitSend o env) o env (.ofPlain io) t) := by
  have hskips : Skips (.ofPlain io) t
      ↔ (c.ws.isNone ∨ io.world.hub.isNone ∨ c.state = .wsSend ∨ c.sendPending) := by
    rw [Skips, h.ws, h.state, h.sendPending, ConnState.ofPlain_eq_wsSend]
    rfl
  unfold Skips at hskips
  unfold wsTrySendPending Edgehost.wsTrySendPending
  by_cases hskip : c.ws.isNone ∨ io.world.hub.isNone ∨ c.state = .wsSend ∨ c.sendPending
  · rw [if_pos hskip, if_pos (hskips.mpr hskip)]
    exact ⟨⟨rfl, h⟩, rfl⟩
  rw [if_neg hskip, if_neg (hskips.not.mpr hskip)]
  obtain ⟨io₁, c₁, rc, t₁, hr, hr', h₁⟩ := (wsFlushOutput_plain o env io h hstate).parts
  have hzero := @Edgehost.wsFlushOutput_zero η P υ ω o env.toLoopEnv io c
  rw [hr] at hzero
  rw [hr, hr']
  dsimp only at hzero ⊢
  by_cases hsent : rc ≠ 0
  · rw [if_pos hsent, if_pos hsent]
    exact ⟨⟨rfl, h₁⟩, rfl⟩
  rw [if_neg hsent, if_neg hsent]
  -- Nothing was queued, so the connection is in the state it was in.
  have hstate₁ : ¬(c₁.state = .send ∨ c₁.state = .wsSend) := by
    rw [hzero (not_not.mp hsent)]
    exact fun h => h.elim hstate fun h => hskip (.inr (.inr (.inl h)))
  have htake : takePending (.ofPlain io₁) t₁.slot
      = (.ofPlain (Edgehost.takePending io₁ c₁.slot).1, (Edgehost.takePending io₁ c₁.slot).2) := by
    rw [h₁.slot_eq, ← h₁.slot]
    exact takePending_ofPlain io₁ c₁.slot
  rw [htake]
  by_cases hone : (Edgehost.takePending io₁ c₁.slot).2.1 ≠ 1
  · rw [if_pos hone, if_pos hone]
    exact ⟨⟨rfl, h₁⟩, rfl⟩
  rw [if_neg hone, if_neg hone, h₁.ws]
  cases hws : c₁.ws.bind (env.ws.sendText · (Edgehost.takePending io₁ c₁.slot).2.2) with
  | none => exact ⟨⟨rfl, h₁⟩, rfl⟩
  | some ws =>
    have hsome : c₁.sendBuf.isSome := by
      refine h₁.buffered (.inr (.inl ?_))
      obtain ⟨lib, hlib, -⟩ := Option.bind_eq_some_iff.mp hws
      rw [hlib]
      rfl
    have hset := h₁.setWs hsome (some (env.ws.getOutput ws o.sendCap).2)
    simp only
    split_ifs
    · exact ⟨⟨rfl, hset.writeBuf hstate₁ _⟩, rfl⟩
    · exact sendFrame_plain o env _ hset hsome _

/-- A slot of the fan-out. -/
theorem flushPending_plain (o : LoopOpts η) (env : LoopEnv η P υ ω) (io : Edgehost.LoopIo P υ)
    (h : Matches i c t) :
    let r := Edgehost.flushPending o env.toLoopEnv io c
    let r' := flushPending o env (.ofPlain io) t
    Mirrors i r.1 r.2 r'.1 r'.2 := by
  have hsubscribed : (t.state = .wsRecv ∧ t.ws.isSome ∧
        edgeWsHubIsSubscribed (LoopIo.ofPlain io).world.hub t.slot)
      ↔ (c.state = .wsRecv ∧ c.ws.isSome ∧ edgeWsHubIsSubscribed io.world.hub c.slot) := by
    rw [h.state, ConnState.ofPlain_eq_wsRecv, h.ws, h.slot_eq, h.slot]
    rfl
  unfold flushPending Edgehost.flushPending
  by_cases hin : c.state = .wsRecv ∧ c.ws.isSome ∧ edgeWsHubIsSubscribed io.world.hub c.slot
  · rw [if_pos hin, if_pos (hsubscribed.mpr hin)]
    exact (wsTrySendPending_plain o env io h (by rw [hin.1]; nofun)).mirrors
  · rw [if_neg hin, if_neg (hsubscribed.not.mpr hin)]
    exact ⟨rfl, h⟩

/-- A connection that has joined the stream. -/
theorem Matches.joinStream (h : Matches i c t) (hsome : c.sendBuf.isSome) (ws : ω) :
    let noHttp : Option (EdgeHttp1Serve η) := none
    Matches i { c with ws := some ws, keepWs := false, state := .wsRecv, http := noHttp }
      { t with ws := some ws, keepWs := false, state := .wsRecv, http := noHttp } := by
  obtain ⟨hslot, -, mem, log, rfl, -⟩ := h
  exact ⟨hslot, fun _ => hsome, mem, log, rfl, by simp [Sends]⟩

/-- It waits for a frame, and takes a message if there is one. -/
theorem recvAndFlush_plain (o : LoopOpts η) (env : LoopEnv η P υ ω) (io : Edgehost.LoopIo P υ)
    (h : Matches i c t) (hstate : c.state = .wsRecv) :
    SameResult i
      (match Edgehost.submitRecv o io c with
        | (io, c, rc) =>
          if rc ≠ 0 then (io, c, -1)
          else
            let r := Edgehost.wsTrySendPending o env.toLoopEnv io c
            (r.1, r.2.1, 0))
      (match submitRecv o (.ofPlain io) t with
        | (io, c, rc) =>
          if rc ≠ 0 then (io, c, (-1 : ℤ))
          else
            let r := wsTrySendPending (submitSend o env) o env io c
            (r.1, r.2.1, 0)) := by
  obtain ⟨io₁, c₁, rc, t₁, hr, hr', h₁⟩ := (submitRecv_plain o io h).parts
  have hsame := Edgehost.submitRecv_state o io c
  rw [hr] at hsame
  rw [hr, hr']
  dsimp only at hsame ⊢
  split_ifs
  · exact ⟨⟨rfl, h₁⟩, rfl⟩
  · have htry := wsTrySendPending_plain o env io₁ h₁ (by rw [hsame, hstate]; nofun)
    exact ⟨htry.mirrors, rfl⟩

/-- The connection that leaves HTTP for the stream has a buffer, since it has sent the answer. -/
theorem promoteToWs_plain (o : LoopOpts η) (env : LoopEnv η P υ ω) (io : Edgehost.LoopIo P υ)
    (h : Matches i c t) (hkeep : c.keepWs = true) :
    SameResult i (Edgehost.promoteToWs o env.toLoopEnv io c)
      (promoteToWs (submitSend o env) o env (.ofPlain io) t) := by
  have hsome : c.sendBuf.isSome := h.buffered (.inr (.inr hkeep))
  unfold promoteToWs Edgehost.promoteToWs
  rw [show (LoopIo.ofPlain io).world = io.world from rfl]
  cases env.ws.create with
  | none => exact ⟨⟨rfl, h.setWs hsome none⟩, rfl⟩
  | some ws =>
    cases io.world.hub with
    | none => exact ⟨⟨rfl, h.setWs hsome none⟩, rfl⟩
    | some hub =>
      have hhub : edgeWsHubSubscribe hub t.slot = edgeWsHubSubscribe hub c.slot := by
        rw [h.slot_eq, h.slot]
      simp only [hhub]
      by_cases hsubscribe : (edgeWsHubSubscribe hub c.slot).2 ≠ 0
      · rw [if_pos hsubscribe, if_pos hsubscribe]
        exact ⟨⟨rfl, h.setWs hsome none⟩, rfl⟩
      rw [if_neg hsubscribe, if_neg hsubscribe]
      exact recvAndFlush_plain o env _ (h.joinStream hsome ws) rfl

/-- A connection in another state, in which it does not send. -/
theorem Matches.setState (h : Matches i c t) (st : Edgehost.ConnState)
    (hidle : ¬(st = .send ∨ st = .wsSend)) :
    Matches i { c with state := st } { t with state := .ofPlain st } := by
  obtain ⟨hslot, hbuf, mem, log, rfl, -⟩ := h
  exact ⟨hslot, hbuf, mem, log, rfl, fun h => absurd h hidle⟩

/-- What follows when everything is sent. -/
theorem handleSendComplete_plain (o : LoopOpts η) (env : LoopEnv η P υ ω)
    (io : Edgehost.LoopIo P υ) (h : Matches i c t) :
    SameResult i (Edgehost.handleSendComplete o env.toLoopEnv io c)
      (handleSendComplete (submitSend o env) o env (.ofPlain io) t) := by
  have hanswered : (t.state = .send ∧ t.keepWs) ↔ (c.state = .send ∧ c.keepWs) := by
    rw [h.state, ConnState.ofPlain_eq_send, h.keepWs]
  have hframed : t.state = .wsSend ↔ c.state = .wsSend := by
    rw [h.state, ConnState.ofPlain_eq_wsSend]
  unfold handleSendComplete Edgehost.handleSendComplete
  by_cases hkeep : c.state = .send ∧ c.keepWs
  · rw [if_pos hkeep, if_pos (hanswered.mpr hkeep)]
    exact promoteToWs_plain o env io h hkeep.2
  rw [if_neg hkeep, if_neg (hanswered.not.mpr hkeep)]
  by_cases hsend : c.state = .wsSend
  · rw [if_pos hsend, if_pos (hframed.mpr hsend)]
    have hset : Matches i { c with state := .wsRecv } { t with state := .wsRecv } :=
      h.setState .wsRecv (by simp)
    obtain ⟨io₁, c₁, rc, t₁, hr, hr', h₁⟩ :=
      (wsTrySendPending_plain o env io hset (by simp)).parts
    rw [hr, hr']
    have hready : (rc = 0 ∧ (!t₁.recvPending) = true ∧ (!t₁.pollPending) = true)
        ↔ (rc = 0 ∧ (!c₁.recvPending) = true) := by
      rw [h₁.recvPending, h₁.pollPending]
      simp
    simp only [hready]
    split_ifs
    · exact submitRecv_plain o io₁ h₁
    · exact ⟨⟨rfl, h₁⟩, rfl⟩
  · rw [if_neg hsend, if_neg (hframed.not.mpr hsend)]
    exact ⟨closeConn_plain io h, rfl⟩

/-- A frame has come in. -/
theorem handleWsRecv_plain (o : LoopOpts η) (env : LoopEnv η P υ ω) (io : Edgehost.LoopIo P υ)
    (h : Matches i c t) (data : Bytes) :
    SameResult i (Edgehost.handleWsRecv o env.toLoopEnv io c data)
      (handleWsRecv o env (.ofPlain io) t data) := by
  unfold handleWsRecv Edgehost.handleWsRecv
  rw [h.ws]
  cases hlib : c.ws with
  | none => exact ⟨⟨rfl, h⟩, rfl⟩
  | some ws =>
    have hsome : c.sendBuf.isSome := h.buffered (.inr (.inl (by rw [hlib]; rfl)))
    have hset := h.setWs hsome
      (some (wsEvents env.toLoopEnv (env.ws.feedInput ws data).1 (env.ws.feedInput ws data).2).1)
    have hidle : (t.state = .wsRecv ∧ (!t.sendPending) = true)
        ↔ (c.state = .wsRecv ∧ (!c.sendPending) = true) := by
      rw [h.state, ConnState.ofPlain_eq_wsRecv, h.sendPending]
    simp only [hidle]
    by_cases hfailed : (wsEvents env.toLoopEnv (env.ws.feedInput ws data).1
        (env.ws.feedInput ws data).2).2 ≠ 0
    · rw [if_pos hfailed, if_pos hfailed]
      exact ⟨⟨rfl, hset⟩, rfl⟩
    rw [if_neg hfailed, if_neg hfailed]
    by_cases hready : c.state = .wsRecv ∧ (!c.sendPending) = true
    · rw [if_pos hready, if_pos hready]
      let io₁ : Edgehost.LoopIo P υ := { io with fed := io.fed ++ [(c.born, data)] }
      have hflush := wsFlushOutput_plain o env
        (io₁.count fun m => { m with bytesIn := m.bytesIn + UInt64.ofNat data.length }) hset
        (by rw [hready.1]; nofun)
      exact ⟨hflush.mirrors, congrArg (fun rc : ℤ => if rc < 0 then (-1 : ℤ) else 0) hflush.ret⟩
    · rw [if_neg hready, if_neg hready]
      exact ⟨⟨rfl, hset⟩, rfl⟩

/-! ## HTTP connections -/

/-- The reply to a request that cannot be read. -/
theorem beginBadRequestPlain_plain (o : LoopOpts η) (env : LoopEnv η P υ ω)
    (io : Edgehost.LoopIo P υ) (h : Matches i c t) :
    SameResult i (Edgehost.beginBadRequestPlain o io c)
      (beginBadRequestPlain o env (.ofPlain io) t) := by
  have hfits : (t.sendBuf.isNone ∨ badRequest.length ≥ o.sendCap)
      ↔ (c.sendBuf.isNone ∨ badRequest.length ≥ o.sendCap) := by
    obtain ⟨-, -, mem, log, rfl, -⟩ := h
    rw [Conn.ofPlain, Option.isNone_map]
  unfold beginBadRequestPlain Edgehost.beginBadRequestPlain
  by_cases hno : c.sendBuf.isNone ∨ badRequest.length ≥ o.sendCap
  · rw [if_pos hno, if_pos (hfits.mpr hno)]
    exact ⟨⟨rfl, h⟩, rfl⟩
  · rw [if_neg hno, if_neg (hfits.not.mpr hno)]
    have hsome : c.sendBuf.isSome :=
      Option.isSome_iff_ne_none.mpr fun h => hno (.inl (by rw [h]; rfl))
    exact beginSendBuf_plain o env _ h hsome badRequest .send

/-- The request as it has been fed. -/
theorem Matches.setHttp (h : Matches i c t) (hsome : c.sendBuf.isSome)
    (http : Option (EdgeHttp1Serve η)) : Matches i { c with http } { t with http } := by
  obtain ⟨hslot, -, mem, log, rfl, hsends⟩ := h
  exact ⟨hslot, fun _ => hsome, mem, log, rfl, hsends⟩

/-- Whether the connection is to join the stream. -/
theorem Matches.setKeepWs (h : Matches i c t) (hsome : c.sendBuf.isSome) (keepWs : Bool) :
    Matches i { c with keepWs } { t with keepWs } := by
  obtain ⟨hslot, -, mem, log, rfl, hsends⟩ := h
  exact ⟨hslot, fun _ => hsome, mem, log, rfl, hsends⟩

/-- What `handle_http_bytes` makes of the result of the send. -/
theorem answered_plain {r : Edgehost.LoopIo P υ × Edgehost.Conn η ω × ℤ}
    {r' : LoopIo P υ × Conn η ω × ℤ} (h : SameResult i r r') :
    SameResult i
      (if r.2.2 ≠ 0 then (r.1, r.2.1, (-1 : ℤ), false) else (r.1, r.2.1, (0 : ℤ), !r.2.1.keepWs))
      (if r'.2.2 ≠ 0 then (r'.1, r'.2.1, -1, false) else (r'.1, r'.2.1, 0, !r'.2.1.keepWs)) := by
  obtain ⟨io, c, rc, t, rfl, rfl, hconn⟩ := h.parts
  dsimp only
  split_ifs
  · exact ⟨⟨rfl, hconn⟩, rfl⟩
  · exact ⟨⟨rfl, hconn⟩, by rw [hconn.keepWs]⟩

/-- Bytes of a request have come in. -/
theorem handleHttpBytes_plain (o : LoopOpts η) (env : LoopEnv η P υ ω) (io : Edgehost.LoopIo P υ)
    (h : Matches i c t) (hstate : c.state = .recv) (data : Bytes) :
    SameResult i (Edgehost.handleHttpBytes o env.toLoopEnv io c data)
      (handleHttpBytes o env (.ofPlain io) t data) := by
  unfold handleHttpBytes Edgehost.handleHttpBytes
  by_cases hdata : data = []
  · rw [if_pos hdata, if_pos hdata]
    have hbad := beginBadRequestPlain_plain o env io h
    exact ⟨hbad.mirrors, congrArg (fun rc : ℤ => (if rc ≠ 0 then (-1 : ℤ) else 0, false)) hbad.ret⟩
  rw [if_neg hdata, if_neg hdata, h.http]
  cases hhttp : c.http with
  | none => exact ⟨⟨rfl, h⟩, rfl⟩
  | some http =>
    have hsome : c.sendBuf.isSome := h.buffered (.inl (by rw [hhttp]; rfl))
    rw [show (LoopIo.ofPlain io).world = io.world from rfl]
    simp only
    generalize edgeHttp1ServeFeed env.serve http io.world data o.sendCap = served
    have hserve := h.setHttp hsome (some served.serve)
    have hfed := hserve.writeBuf (by simp [hstate]) served.out
    let io₁ : Edgehost.LoopIo P υ :=
      { io with world := served.world, fed := io.fed ++ [(c.born, data)] }
    by_cases hfailed : served.ret < 0
    · rw [if_pos hfailed, if_pos hfailed]
      exact ⟨⟨rfl, hfed⟩, rfl⟩
    rw [if_neg hfailed, if_neg hfailed]
    by_cases hmore : served.ret = 0
    · rw [if_pos hmore, if_pos hmore]
      have hrecv := submitRecv_plain o io₁ hfed
      exact ⟨hrecv.mirrors, congrArg (·, false) hrecv.ret⟩
    · rw [if_neg hmore, if_neg hmore]
      have hsend := beginSendBuf_plain o env io₁ (hserve.setKeepWs hsome served.serve.wsUpgrade)
        hsome served.out .send
      exact answered_plain hsend

/-! ## Completions of a connection -/

/-- A receive has completed. -/
theorem Matches.received (h : Matches i c t) :
    Matches i { c with recvPending := false } { t with recvPending := false } := by
  obtain ⟨hslot, hbuf, mem, log, rfl, hsends⟩ := h
  exact ⟨hslot, hbuf, mem, log, rfl, hsends⟩

/-- A receive has failed; the full loop takes a note of that. -/
theorem Matches.notReceived (h : Matches i c t) :
    Matches i { c with recvPending := false } { t.broke with recvPending := false } := by
  obtain ⟨hslot, hbuf, mem, log, rfl, hsends⟩ := h
  exact ⟨hslot, hbuf, mem, _, rfl, hsends⟩

/-- A send has completed. -/
theorem Matches.sent (h : Matches i c t) (n : ℕ) :
    Matches i { c with sendPending := false, sendOff := c.sendOff + n }
      ({ t with sendPending := false }.advance n) := by
  obtain ⟨hslot, hbuf, mem, log, rfl, hsends⟩ := h
  exact ⟨hslot, hbuf, mem, _, rfl, hsends⟩

/-- A send has failed. -/
theorem Matches.notSent (h : Matches i c t) :
    Matches i { c with sendPending := false } { t.broke with sendPending := false } := by
  obtain ⟨hslot, hbuf, mem, log, rfl, hsends⟩ := h
  exact ⟨hslot, hbuf, mem, _, rfl, hsends⟩

end Functions

end Edgehost.Tls
