import Edgehost.Host.ServeMetrics
import Edgehost.Host.TlsLoop

/-!
# What a connection does to its slot

One statement about every function that works on one connection: either the connection lives on with
its descriptor and its `SSL`, and the counter of live connections stays, or it is closed, and the
counter goes down with it.

* `Effect` — the statement.
* `tlsDriveWrite_effect`, `handleHttpBytes_effect`, `handleWsRecv_effect` — it holds of the handlers.
-/

namespace Edgehost.Tls

variable {η P υ ω : Type*}

/-- The counter of live connections. -/
def LoopIo.active (io : LoopIo P υ) : Option UInt64 := io.world.active

/-- The counter once a connection with this descriptor is closed. -/
def dropped (fd : Option ℕ) (active : Option UInt64) : Option UInt64 :=
  if fd.isSome then active.map fun n => if n > 0 then n - 1 else 0 else active

/-- A connection that sends a response and is then closed. -/
def HttpOnly (c : Conn η ω) : Prop := c.state = .send ∧ c.keepWs = false

/-- The connection lives on in its slot. -/
structure LivesOn (io : LoopIo P υ) (c : Conn η ω) (io' : LoopIo P υ) (c' : Conn η ω) : Prop where
  live : c'.state ≠ .free
  fd : c'.fd = c.fd
  ssl : c'.ssl = c.ssl
  http : HttpOnly c → HttpOnly c'
  active : io'.active = io.active

/-- The connection is closed. -/
structure IsClosed (io : LoopIo P υ) (c : Conn η ω) (io' : LoopIo P υ) (c' : Conn η ω) : Prop where
  free : c'.state = .free
  fd : c'.fd = none
  ssl : c'.ssl = none
  active : io'.active = dropped c.fd io.active

/-- A function took a connection from `c` to `c'`: it lives on or is closed, and nothing happens to a
slot that is free. -/
structure Effect (io : LoopIo P υ) (c : Conn η ω) (io' : LoopIo P υ) (c' : Conn η ω) : Prop where
  slot : c'.slot = c.slot
  free : c.state = .free → c' = c ∧ io'.active = io.active
  live : c.state ≠ .free → LivesOn io c io' c' ∨ IsClosed io c io' c'

/-- A function that does nothing. -/
theorem Effect.refl (io : LoopIo P υ) (c : Conn η ω) : Effect io c io c :=
  ⟨rfl, fun _ => ⟨rfl, rfl⟩, fun h => .inl ⟨h, rfl, rfl, id, rfl⟩⟩

/-- One function after the other. Behind one that closes the connection the other finds a free slot. -/
theorem Effect.trans {io io₁ io' : LoopIo P υ} {c c₁ c' : Conn η ω} (h : Effect io c io₁ c₁)
    (h' : Effect io₁ c₁ io' c') : Effect io c io' c' where
  slot := h'.slot.trans h.slot
  free hfree := by
    obtain ⟨rfl, hactive⟩ := h.free hfree
    obtain ⟨hc, hactive'⟩ := h'.free hfree
    exact ⟨hc, hactive'.trans hactive⟩
  live hlive := by
    rcases h.live hlive with h₁ | h₁
    · rcases h'.live h₁.live with h₂ | h₂
      · exact .inl ⟨h₂.live, h₂.fd.trans h₁.fd, h₂.ssl.trans h₁.ssl, h₂.http ∘ h₁.http,
          h₂.active.trans h₁.active⟩
      · exact .inr ⟨h₂.free, h₂.fd, h₂.ssl, by rw [h₂.active, h₁.active, h₁.fd]⟩
    · obtain ⟨rfl, hactive⟩ := h'.free h₁.free
      exact .inr ⟨h₁.free, h₁.fd, h₁.ssl, hactive.trans h₁.active⟩

/-- A live connection changes, but for its descriptor, and so does the process, but for the counter. -/
theorem Effect.of_live {io io' : LoopIo P υ} {c c' : Conn η ω} (hc : c.state ≠ .free)
    (hlive : c'.state ≠ .free) (hslot : c'.slot = c.slot) (hfd : c'.fd = c.fd)
    (hssl : c'.ssl = c.ssl) (hhttp : HttpOnly c → HttpOnly c') (hactive : io'.active = io.active) :
    Effect io c io' c' :=
  ⟨hslot, fun hfree => absurd hfree hc, fun _ => .inl ⟨hlive, hfd, hssl, hhttp, hactive⟩⟩

/-- Counting something else leaves the counter alone. -/
theorem count_active {io : LoopIo P υ} {f : EdgeMetrics → EdgeMetrics}
    (hf : ∀ m, (f m).activeConns = m.activeConns) : (io.count f).active = io.active :=
  active_count hf

/-! ## Submitting and closing -/

/-- An entry is added to the ring. -/
theorem getSqe_active {o : LoopOpts η} {io io' : LoopIo P υ} {sqe : Sqe}
    (h : getSqe o io sqe = some io') : io'.active = io.active := by
  unfold getSqe at h
  split_ifs at h
  rw [← Option.some.inj h]
  rfl

/-- A poll is submitted, or there is no entry left. -/
theorem submitPoll_effect (o : LoopOpts η) (io : LoopIo P υ) {c : Conn η ω} (hc : c.state ≠ .free)
    (w : Bool) : Effect io c (submitPoll o io c w).1 (submitPoll o io c w).2.1 := by
  unfold submitPoll
  split_ifs
  · exact .refl io c
  · cases hsqe : getSqe o io ⟨.poll w, c.slot, c.born⟩ with
    | none => exact .of_live hc hc rfl rfl rfl id rfl
    | some io' => exact .of_live hc hc rfl rfl rfl id (getSqe_active hsqe)

/-- A receive, or a poll in its place. -/
theorem submitRecv_effect (o : LoopOpts η) (io : LoopIo P υ) (c : Conn η ω) :
    Effect io c (submitRecv o io c).1 (submitRecv o io c).2.1 := by
  unfold submitRecv
  by_cases hidle : c.recvPending ∨ c.pollPending ∨
      c.state ≠ .recv ∧ c.state ≠ .wsRecv ∧ c.state ≠ .tlsHs
  · rw [if_pos hidle]
    exact .refl io c
  rw [if_neg hidle]
  have hc : c.state ≠ .free := fun hfree =>
    hidle (.inr (.inr (by rw [hfree]; exact ⟨by decide, by decide, by decide⟩)))
  split_ifs
  · exact submitPoll_effect o io hc false
  · cases hsqe : getSqe o io ⟨.recv, c.slot, c.born⟩ with
    | none => exact .of_live hc hc rfl rfl rfl id rfl
    | some io' => exact .of_live hc hc rfl rfl rfl id (getSqe_active hsqe)

/-- The counter goes down with the descriptor. -/
theorem closeConn_effect (io : LoopIo P υ) (c : Conn η ω) :
    Effect io c (closeConn io c).1 (closeConn io c).2 := by
  unfold closeConn
  split_ifs with hfree
  · exact .refl io c
  · refine ⟨rfl, fun h => absurd h hfree, fun _ => .inr ⟨rfl, rfl, rfl, ?_⟩⟩
    cases c.fd with
    | none => rfl
    | some fd =>
      show (ServeWorld.active _) = Option.map _ (Option.map _ _)
      rw [Option.map_map]
      exact Option.map_map ..

/-- What is closed is free. -/
theorem closeConn_free (io : LoopIo P υ) (c : Conn η ω) : (closeConn io c).2.state = .free := by
  unfold closeConn
  split_ifs with hfree
  · exact hfree
  · rfl

/-- A handler, and the close where it failed. -/
theorem closeOnError_effect {io : LoopIo P υ} {c : Conn η ω} {r : LoopIo P υ × Conn η ω × ℤ}
    (h : Effect io c r.1 r.2.1) : Effect io c (closeOnError r).1 (closeOnError r).2 := by
  unfold closeOnError
  split_ifs
  · exact h.trans (closeConn_effect r.1 r.2.1)
  · exact h

/-! ## Sends -/

/-- A submission of sends with this effect on live connections. -/
def HasEffect (send : LoopIo P υ → Conn η ω → LoopIo P υ × Conn η ω × ℤ) : Prop :=
  ∀ io c, c.state ≠ .free → Effect io c (send io c).1 (send io c).2.1

section

variable {send : LoopIo P υ → Conn η ω → LoopIo P υ × Conn η ω × ℤ}

/-- A send begins, on a connection that has not sent its response yet. -/
theorem beginSendBuf_effect (hsend : HasEffect send) (io : LoopIo P υ) {c : Conn η ω}
    (hc : c.state ≠ .free) (hhttp : ¬ HttpOnly c) (len : ℕ) (st : ConnState) (hst : st ≠ .free) :
    Effect io c (beginSendBuf send io c len st).1 (beginSendBuf send io c len st).2.1 := by
  unfold beginSendBuf
  refine Effect.trans ?_ (hsend io _ hst)
  exact .of_live hc hst rfl rfl rfl (fun h => absurd h hhttp) rfl

/-- A WebSocket connection that is not sending is live, and not about to be closed. -/
theorem wsRecv_live {c : Conn η ω} (hst : c.state = .wsRecv) : c.state ≠ .free ∧ ¬ HttpOnly c :=
  ⟨by simp [hst], fun hhttp => absurd (hst.symm.trans hhttp.1) (by decide)⟩

/-- A frame is written to the buffer. -/
theorem setWs_effect (io : LoopIo P υ) {c : Conn η ω} (hst : c.state = .wsRecv) (ws : Option ω)
    (bs : Bytes) : Effect io c io (Conn.writeBuf { c with ws } bs) :=
  .of_live (wsRecv_live hst).1 (wsRecv_live hst).1 rfl rfl rfl id rfl

/-- The frame in the buffer is sent. -/
theorem sendFrame_effect (hsend : HasEffect send) (io : LoopIo P υ) {c : Conn η ω}
    (hst : c.state = .wsRecv) (ws : Option ω) (bs : Bytes) (len : ℕ) :
    Effect io c (sendFrame send io (Conn.writeBuf { c with ws } bs) len).1
      (sendFrame send io (Conn.writeBuf { c with ws } bs) len).2.1 :=
  have hset := setWs_effect io hst ws bs
  hset.trans (beginSendBuf_effect hsend io (c := Conn.writeBuf { c with ws } bs) (wsRecv_live hst).1
    (wsRecv_live hst).2 len .wsSend (by decide))

/-- What the library has queued; if that is nothing the connection still receives. -/
theorem wsFlushOutput_effect (hsend : HasEffect send) (o : LoopOpts η) (env : LoopEnv η P υ ω)
    (io : LoopIo P υ) {c : Conn η ω} (hst : c.state = .wsRecv) :
    Effect io c (wsFlushOutput send o env io c).1 (wsFlushOutput send o env io c).2.1 ∧
      ((wsFlushOutput send o env io c).2.2 = 0 → (wsFlushOutput send o env io c).2.1.state = .wsRecv)
    := by
  unfold wsFlushOutput
  cases c.ws with
  | none => exact ⟨.refl io c, fun _ => hst⟩
  | some ws =>
    simp only
    split_ifs
    · exact ⟨.refl io c, fun _ => hst⟩
    · exact ⟨setWs_effect io hst _ _, fun _ => hst⟩
    · exact ⟨setWs_effect io hst _ _, fun _ => hst⟩
    · refine ⟨sendFrame_effect hsend io hst _ _ _, ?_⟩
      intro hzero
      simp only [sendFrame] at hzero
      split_ifs at hzero
      all_goals exact absurd hzero (by decide)

/-- Taking a message touches the hub only. -/
theorem takePending_active (io : LoopIo P υ) (slot : ℕ) :
    (takePending io slot).1.active = io.active := by
  unfold takePending
  cases io.world.hub <;> rfl

/-- A fan-out to one connection, by what it comes to. -/
theorem wsTrySendPending_effect (hsend : HasEffect send) (o : LoopOpts η) (env : LoopEnv η P υ ω)
    (io : LoopIo P υ) {c : Conn η ω} (hst : c.state = .wsRecv) :
    Effect io c (wsTrySendPending send o env io c).1 (wsTrySendPending send o env io c).2.1 := by
  obtain ⟨hflush, hzero⟩ := wsFlushOutput_effect hsend o env io hst
  have htried := wsTrySendPending_tried send o env io c
  generalize wsTrySendPending send o env io c = r at htried ⊢
  -- The library had nothing queued; now a message of the hub.
  have htaken : ∀ {io₁ : LoopIo P υ} {c₁ : Conn η ω}, wsFlushOutput send o env io c = (io₁, c₁, 0) →
      c₁.state = .wsRecv ∧ Effect io c (takePending io₁ c₁.slot).1 c₁ := by
    intro io₁ c₁ heq
    rw [heq] at hflush hzero
    have hst₁ : c₁.state = .wsRecv := hzero rfl
    have hc := (wsRecv_live hst₁).1
    exact ⟨hst₁, hflush.trans (.of_live hc hc rfl rfl rfl id (takePending_active ..))⟩
  cases htried with
  | skipped hskip => exact .refl io c
  | flushed hopen hrc => exact hflush
  | unsent hopen heq rc => exact (htaken heq).2
  | cut hopen heq ws =>
    obtain ⟨hst₁, htook⟩ := htaken heq
    exact htook.trans (setWs_effect _ hst₁ _ _)
  | framed hopen heq hone hws hfits =>
    obtain ⟨hst₁, htook⟩ := htaken heq
    exact htook.trans (sendFrame_effect hsend _ hst₁ _ _ _)

/-- A response that is out and asked for the stream: the connection goes on. -/
theorem promoteToWs_effect (hsend : HasEffect send) (o : LoopOpts η) (env : LoopEnv η P υ ω)
    (io : LoopIo P υ) {c : Conn η ω} (hc : c.state ≠ .free) (hhttp : ¬ HttpOnly c) :
    Effect io c (promoteToWs send o env io c).1 (promoteToWs send o env io c).2.1 := by
  have hno : Effect io c io ({ c with ws := none } : Conn η ω) := .of_live hc hc rfl rfl rfl id rfl
  unfold promoteToWs
  cases env.ws.create with
  | none => exact hno
  | some ws =>
    cases io.world.hub with
    | none => exact hno
    | some hub =>
      simp only
      by_cases hsub : (edgeWsHubSubscribe hub c.slot).2 = 0
      case neg =>
        rw [if_pos hsub]
        exact hno
      rw [if_neg (not_not.mpr hsub)]
      let io₁ : LoopIo P υ :=
        { io with world := { io.world with hub := some (edgeWsHubSubscribe hub c.slot).1 } }
      let c₁ : Conn η ω := { c with ws := some ws, keepWs := false, state := .wsRecv, http := none }
      have hfirst : Effect io c io₁ c₁ :=
        .of_live hc (by simp [c₁]) rfl rfl rfl (fun h => absurd h hhttp) rfl
      have hrecv := submitRecv_effect o io₁ c₁
      -- `ws_try_send_pending` is called only once the receive is submitted.
      have hst : (submitRecv o io₁ c₁).2.1.state = .wsRecv := by
        unfold submitRecv submitPoll
        split_ifs
        · rfl
        · rfl
        · cases getSqe o io₁ ⟨.poll false, c₁.slot, c₁.born⟩ <;> rfl
        · cases getSqe o io₁ ⟨.recv, c₁.slot, c₁.born⟩ <;> rfl
      split_ifs
      · exact hfirst.trans hrecv
      · exact hfirst.trans (hrecv.trans (wsTrySendPending_effect hsend o env _ hst))

/-- A buffer that is out: the connection is promoted, goes on receiving, or is closed. -/
theorem handleSendComplete_effect (hsend : HasEffect send) (o : LoopOpts η) (env : LoopEnv η P υ ω)
    (io : LoopIo P υ) {c : Conn η ω} (hc : c.state ≠ .free) :
    Effect io c (handleSendComplete send o env io c).1 (handleSendComplete send o env io c).2.1 := by
  unfold handleSendComplete
  split_ifs with hws hsent
  · exact promoteToWs_effect hsend o env io hc fun h => absurd (h.2.symm.trans hws.2) (by decide)
  -- The state goes back first, so that the next frame may begin.
  · have hfirst : Effect io c io ({ c with state := .wsRecv } : Conn η ω) :=
      .of_live hc (by simp) rfl rfl rfl (fun h => absurd (hsent.symm.trans h.1) (by decide)) rfl
    have htry := wsTrySendPending_effect hsend o env io
      (show ({ c with state := .wsRecv } : Conn η ω).state = .wsRecv from rfl)
    simp only
    split_ifs
    · exact hfirst.trans (htry.trans (submitRecv_effect o _ _))
    · exact hfirst.trans htry
  · exact closeConn_effect io c

end

/-- A send is submitted, or driven through the `SSL` at once. -/
theorem submitSendBy_effect (o : LoopOpts η)
    {drive : LoopIo P υ → Conn η ω → LoopIo P υ × Conn η ω × ℤ} (hdrive : HasEffect drive) :
    HasEffect (submitSendBy o drive) := by
  intro io c hc
  unfold submitSendBy
  split_ifs
  · exact .refl io c
  · exact hdrive io c hc
  · cases hsqe : getSqe o io ⟨.send, c.slot, c.born⟩ with
    | none => exact .of_live hc hc rfl rfl rfl id rfl
    | some io' => exact .of_live hc hc rfl rfl rfl id (getSqe_active hsqe)

/-- By induction on the answers of `SSL_write`, like the function. -/
theorem tlsDriveWrite_effect (o : LoopOpts η) (env : LoopEnv η P υ ω) (answers : List WriteAnswer) :
    HasEffect (tlsDriveWrite o env answers) := by
  induction answers with
  | nil =>
    intro io c hc
    rw [tlsDriveWrite]
    split_ifs
    · exact .refl io c
    · exact .of_live hc hc rfl rfl rfl id rfl
  | cons answer answers ih =>
    intro io c hc
    rw [tlsDriveWrite]
    split_ifs
    · exact .refl io c
    have hlog : ∀ log : ConnLog, Effect io c io ({ c with log } : Conn η ω) := fun log =>
      .of_live hc hc rfl rfl rfl id rfl
    cases answer with
    | failed => exact hlog _
    | want write =>
      exact (hlog { c.log with offered := true, wanted := write }).trans (submitPoll_effect o io
        (c := { c with log := { c.log with offered := true, wanted := write } }) hc write)
    | wrote n =>
      simp only
      generalize min (n + 1) (c.sendLen - c.sendOff) = k
      have hadv : Effect io c (io.count fun m => { m with bytesOut := m.bytesOut + UInt64.ofNat k })
          (Conn.advance { c with log := { c.log with offered := true } } k) :=
        .of_live hc hc rfl rfl rfl id (count_active fun _ => rfl)
      -- The buffer is out and the next one may begin, or `SSL_write` is called for the rest.
      split_ifs
      · exact hadv.trans (handleSendComplete_effect (submitSendBy_effect o ih) o env _
          (c := Conn.advance _ k) hc)
      · exact hadv.trans (ih _ (Conn.advance _ k) hc)

/-- A send with the answers of this step. -/
theorem submitSend_effect (o : LoopOpts η) (env : LoopEnv η P υ ω) : HasEffect (submitSend o env) :=
  fun io c => submitSendBy_effect o (tlsDriveWrite_effect o env (env.ssl c.slot).writes) io c

/-! ## Input -/

/-- Bytes of the stream. -/
theorem handleWsRecv_effect (o : LoopOpts η) (env : LoopEnv η P υ ω) (io : LoopIo P υ)
    {c : Conn η ω} (hst : c.state = .wsRecv) (data : Bytes) :
    Effect io c (handleWsRecv o env io c data).1 (handleWsRecv o env io c data).2.1 := by
  have hc : c.state ≠ .free := by simp [hst]
  unfold handleWsRecv
  cases c.ws with
  | none => exact .refl io c
  | some ws =>
    simp only
    generalize hio : (io.count fun m => { m with bytesIn := m.bytesIn + UInt64.ofNat data.length })
      = io₁
    have hactive : io₁.active = io.active := hio ▸ count_active fun _ => rfl
    have hset : ∀ ws : Option ω, Effect io c io₁ ({ c with ws } : Conn η ω) := fun ws =>
      .of_live hc hc rfl rfl rfl id hactive
    generalize wsEvents env.toLoopEnv (env.ws.feedInput ws data).1 (env.ws.feedInput ws data).2 = r
    have hflush := (hset (some r.1)).trans (wsFlushOutput_effect (submitSend_effect o env) o env io₁
      (c := { c with ws := some r.1 }) hst).1
    by_cases hrc : r.2 = 0
    case neg =>
      rw [if_pos hrc]
      exact hset _
    rw [if_neg (not_not.mpr hrc)]
    split_ifs
    · exact hflush
    · exact hflush
    · exact hset _

/-- The reply to an empty read. -/
theorem beginBadRequestPlain_effect (o : LoopOpts η) (env : LoopEnv η P υ ω) (io : LoopIo P υ)
    {c : Conn η ω} (hst : c.state = .recv) :
    Effect io c (beginBadRequestPlain o env io c).1 (beginBadRequestPlain o env io c).2.1 := by
  have hc : c.state ≠ .free := by simp [hst]
  have hhttp : ¬ HttpOnly c := fun h => absurd (hst.symm.trans h.1) (by decide)
  unfold beginBadRequestPlain
  split_ifs
  · exact .refl io c
  · have hwrite : Effect io c
        (io.count fun m => { m with requests := m.requests + 1, responses4xx := m.responses4xx + 1 })
        (c.writeBuf badRequest) := .of_live hc hc rfl rfl rfl id (count_active fun _ => rfl)
    exact hwrite.trans (beginSendBuf_effect (submitSend_effect o env) _ (c := c.writeBuf badRequest) hc
      hhttp _ .send (by decide))

/-- Bytes of a request: it fails, waits for more, or is answered. -/
theorem handleHttpBytes_effect (o : LoopOpts η) (env : LoopEnv η P υ ω) (io : LoopIo P υ)
    {c : Conn η ω} (hst : c.state = .recv) (data : Bytes) :
    Effect io c (handleHttpBytes o env io c data).1 (handleHttpBytes o env io c data).2.1 := by
  have hc : c.state ≠ .free := by simp [hst]
  have hhttp : ∀ {c : Conn η ω}, c.state = .recv → ¬ HttpOnly c := fun hst h =>
    absurd (hst.symm.trans h.1) (by decide)
  unfold handleHttpBytes
  by_cases hdata : data = []
  · rw [if_pos hdata]
    exact beginBadRequestPlain_effect o env io hst
  rw [if_neg hdata]
  cases c.http with
  | none => exact .refl io c
  | some http =>
    simp only
    have hfed := edgeHttp1ServeFeed_active env.serve http io.world data o.sendCap
    generalize edgeHttp1ServeFeed env.serve http io.world data o.sendCap = served at hfed
    have hset : Effect io c { io with world := served.world }
        (Conn.writeBuf { c with http := some served.serve } served.out) :=
      .of_live hc hc rfl rfl rfl id hfed
    by_cases hneg : served.ret < 0
    · rw [if_pos hneg]
      exact hset
    rw [if_neg hneg]
    by_cases hmore : served.ret = 0
    · rw [if_pos hmore]
      exact hset.trans (submitRecv_effect o _ _)
    rw [if_neg hmore]
    let c₂ : Conn η ω := { Conn.writeBuf { c with http := some served.serve } served.out with
      keepWs := served.serve.wsUpgrade }
    have hkeep : Effect io c { io with world := served.world } c₂ :=
      .of_live hc hc rfl rfl rfl (fun h => absurd h (hhttp hst)) hfed
    -- `keep_ws` is set before the send, so a connection that asked for the stream is not `HttpOnly`.
    have hbegin := hkeep.trans (beginSendBuf_effect (submitSend_effect o env) _ (c := c₂) hc
      (hhttp (c := c₂) hst) served.out.length .send (by decide))
    split_ifs
    · exact hbegin
    · exact hbegin

/-- A step of the handshake. -/
theorem pollHandshake_effect (o : LoopOpts η) (env : LoopEnv η P υ ω) (io : LoopIo P υ)
    {c : Conn η ω} (hst : c.state = .tlsHs) :
    Effect io c (pollHandshake o env io c).1 (pollHandshake o env io c).2.1 := by
  have hc : c.state ≠ .free := by simp [hst]
  unfold pollHandshake
  cases (env.ssl c.slot).handshake with
  | done =>
    have hrecv : Effect io c io ({ c with state := .recv } : Conn η ω) :=
      .of_live hc (by simp) rfl rfl rfl (fun h => absurd (hst.symm.trans h.1) (by decide)) rfl
    exact hrecv.trans (submitRecv_effect o io _)
  | want write => exact submitPoll_effect o io hc write
  | failed => exact .of_live hc hc rfl rfl rfl id rfl

/-- Behind a frame the connection breaks, goes on receiving or waits. -/
theorem afterFrame_effect (o : LoopOpts η) {io : LoopIo P υ} {c : Conn η ω}
    {r : LoopIo P υ × Conn η ω × ℤ} (hws : Effect io c r.1 r.2.1) (again : Prop) [Decidable again] :
    let out : LoopIo P υ × Conn η ω × ℤ :=
      if r.2.2 ≠ 0 then (r.1, r.2.1, -1)
      else if again then submitRecv o r.1 r.2.1
      else (r.1, r.2.1, 0)
    Effect io c out.1 out.2.1 := by
  dsimp only
  split_ifs
  · exact hws
  · exact hws.trans (submitRecv_effect o _ _)
  · exact hws

/-- A poll of the stream that has read data. -/
theorem pollWsData_effect (o : LoopOpts η) (env : LoopEnv η P υ ω) (io : LoopIo P υ)
    {c : Conn η ω} (hst : c.state = .wsRecv) (data : Bytes) :
    Effect io c (pollWsData o env io c data).1 (pollWsData o env io c data).2.1 :=
  afterFrame_effect o (handleWsRecv_effect o env io hst data) _

/-- A receive of the stream. -/
theorem recvWs_effect (o : LoopOpts η) (env : LoopEnv η P υ ω) (io : LoopIo P υ)
    {c : Conn η ω} (hst : c.state = .wsRecv) (data : Bytes) :
    Effect io c (recvWs o env io c data).1 (recvWs o env io c data).2.1 :=
  afterFrame_effect o (handleWsRecv_effect o env io hst data) _

/-- A poll, once the bytes that it makes readable are read. -/
theorem pollHttp_effect (o : LoopOpts η) (env : LoopEnv η P υ ω) (io : LoopIo P υ) {c : Conn η ω}
    (hst : c.state = .recv) (ssl : Ssl) :
    Effect io { c with ssl := some (edgeTlsRead ssl RECV_BUF (env.ssl c.slot).record).1 }
      (pollHttp o env io c ssl).1 (pollHttp o env io c ssl).2.1 := by
  have hc : c.state ≠ .free := by simp [hst]
  unfold pollHttp
  simp only
  generalize edgeTlsRead ssl RECV_BUF (env.ssl c.slot).record = read
  let c₁ : Conn η ω := { c with ssl := some read.1 }
  cases read.2 with
  | data data => exact handleHttpBytes_effect o env io (c := c₁) hst data
  | want write => exact submitPoll_effect o io (c := c₁) hc write
  | eof => exact beginBadRequestPlain_effect o env io (c := c₁) hst
  | failed => exact .of_live hc hc rfl rfl rfl id rfl

/-- A poll of the stream, once the bytes that it makes readable are read. -/
theorem pollWs_effect (o : LoopOpts η) (env : LoopEnv η P υ ω) (io : LoopIo P υ) {c : Conn η ω}
    (hst : c.state = .wsRecv) (ssl : Ssl) :
    Effect io { c with ssl := some (edgeTlsRead ssl RECV_BUF (env.ssl c.slot).record).1 }
      (pollWs o env io c ssl).1 (pollWs o env io c ssl).2.1 := by
  have hc : c.state ≠ .free := by simp [hst]
  unfold pollWs
  simp only
  generalize edgeTlsRead ssl RECV_BUF (env.ssl c.slot).record = read
  let c₁ : Conn η ω := { c with ssl := some read.1 }
  cases read.2 with
  | data data => exact pollWsData_effect o env io (c := c₁) hst data
  | want write => exact submitPoll_effect o io (c := c₁) hc write
  | eof => exact .refl io _
  | failed => exact .of_live hc hc rfl rfl rfl id rfl

/-- A slot of the fan-out. -/
theorem flushPending_effect (o : LoopOpts η) (env : LoopEnv η P υ ω) (io : LoopIo P υ)
    (c : Conn η ω) : Effect io c (flushPending o env io c).1 (flushPending o env io c).2 := by
  unfold flushPending
  split_ifs with hsub
  · exact wsTrySendPending_effect (submitSend_effect o env) o env io hsub.1
  · exact .refl io c

/-! ## What happens to a connection -/

/-- The connections agree on all that an effect speaks of. -/
structure Agrees (c c₁ : Conn η ω) : Prop where
  state : c₁.state = c.state
  fd : c₁.fd = c.fd
  keepWs : c₁.keepWs = c.keepWs
  ssl : c₁.ssl = c.ssl

/-- A receive that completes. A free slot and a state that expects none are left alone. -/
theorem onRecv_effect (o : LoopOpts η) (env : LoopEnv η P υ ω) (io : LoopIo P υ) (c : Conn η ω)
    (res : Except ℤ Bytes) : ∃ c₁, Agrees c c₁ ∧
      Effect io c₁ (onRecv o env io c res).1 (onRecv o env io c res).2.1 := by
  have hclear : Agrees c { c with recvPending := false } := ⟨rfl, rfl, rfl, rfl⟩
  have hbroke : Agrees c { c.broke with recvPending := false } := ⟨rfl, rfl, rfl, rfl⟩
  unfold onRecv
  split
  case h_1 => exact ⟨_, hbroke, closeConn_effect io _⟩
  case h_2 => exact ⟨_, hclear, closeConn_effect io _⟩
  case h_3 hst =>
    exact ⟨_, hclear, closeOnError_effect (recvWs_effect o env io (hclear.state.trans hst) _)⟩
  case h_4 => exact ⟨_, hbroke, closeConn_effect io _⟩
  case h_5 data hst =>
    have h := handleHttpBytes_effect o env io (hclear.state.trans hst) data
    exact ⟨_, hclear, closeOnError_effect (r := (_, _, (handleHttpBytes o env io
      { c with recvPending := false } data).2.2.1)) h⟩
  case h_6 => exact ⟨c, ⟨rfl, rfl, rfl, rfl⟩, .refl io c⟩

/-- A send that completes: it is out, or the rest of it is submitted. -/
theorem onSend_effect (o : LoopOpts η) (env : LoopEnv η P υ ω) (io : LoopIo P υ) (c : Conn η ω)
    (res : Except ℤ ℕ) : ∃ c₁, Agrees c c₁ ∧
      Effect io c₁ (onSend o env io c res).1 (onSend o env io c res).2 := by
  unfold onSend
  split_ifs with hfree
  · exact ⟨c, ⟨rfl, rfl, rfl, rfl⟩, .refl io c⟩
  cases res with
  | error e =>
    have hbroke : Agrees c { c.broke with sendPending := false } := ⟨rfl, rfl, rfl, rfl⟩
    exact ⟨_, hbroke, closeConn_effect io _⟩
  | ok n =>
    simp only
    let c₁ : Conn η ω := Conn.advance { c with sendPending := false } n
    have hcount : Effect io c₁
        (io.count fun m => { m with bytesOut := m.bytesOut + UInt64.ofNat n }) c₁ :=
      .of_live hfree hfree rfl rfl rfl id (count_active fun _ => rfl)
    refine ⟨c₁, ⟨rfl, rfl, rfl, rfl⟩, hcount.trans ?_⟩
    split_ifs
    · exact closeOnError_effect (handleSendComplete_effect (submitSend_effect o env) o env _ hfree)
    · exact closeOnError_effect (submitSend_effect o env _ c₁ hfree)

/-! ## Opening a connection -/

/-- A connection that could not be opened is closed. -/
theorem openedOr_effect {io : LoopIo P υ} {c : Conn η ω} {r : LoopIo P υ × Conn η ω × ℤ}
    (h : Effect io c r.1 r.2.1) : Effect io c (openedOr r).1 (openedOr r).2.1 := by
  unfold openedOr
  split_ifs
  · exact h.trans (closeConn_effect r.1 r.2.1)
  · exact h

/-- `accept_one` gives a new connection its descriptor and counts it; what follows is an effect. -/
theorem openConn_effect (o : LoopOpts η) (env : LoopEnv η P υ ω) (tls : Bool) (io : LoopIo P υ)
    (slot born clientFd : ℕ) : let r := openConn o env tls io (newConn o slot born) clientFd
    ∃ (io₁ : LoopIo P υ) (c₁ : Conn η ω), c₁.state ≠ .free ∧ c₁.fd = some clientFd ∧
      (∀ ssl ∈ c₁.ssl, ssl.pending = []) ∧ io₁.active = io.active.map (· + 1) ∧
      Effect io₁ c₁ r.1 r.2.1 := by
  have hactive : (io.count fun m =>
      { m with accepts := m.accepts + 1, activeConns := m.activeConns + 1 }).active =
        io.active.map (· + 1) := by
    show Option.map _ (Option.map _ _) = Option.map _ (Option.map _ _)
    rw [Option.map_map, Option.map_map]
    rfl
  let c : Conn η ω := { newConn o slot born with fd := some clientFd }
  have hnone : ∀ ssl ∈ c.ssl, ssl.pending = [] := by simp [c, newConn, Conn.idle]
  unfold openConn
  cases tls with
  | false =>
    exact ⟨_, c, by simp [c, newConn], rfl, hnone, hactive, openedOr_effect (submitRecv_effect o _ _)⟩
  | true =>
    unfold openTls
    by_cases hssl : env.newSsl = true
    · simp only [hssl, if_true, Bool.not_true, Bool.false_eq_true, if_false]
      exact ⟨_, { c with ssl := some ⟨[]⟩, state := .tlsHs }, by simp, rfl, by simp, hactive,
        openedOr_effect (pollHandshake_effect o env _ rfl)⟩
    · simp only [hssl, if_true, Bool.not_false]
      exact ⟨_, c, by simp [c, newConn], rfl, hnone, hactive, openedOr_effect (.refl _ _)⟩

end Edgehost.Tls
