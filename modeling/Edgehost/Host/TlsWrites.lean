import Edgehost.Host.TlsEffects
import Edgehost.Host.TlsSends

/-!
# What TLS has been offered (`tls_drive_write`, `submit_send`)

A TLS connection has one poll at a time. What it has to send is offered to `SSL_write`, and the poll
that is armed then waits for what `SSL_write` asked for; but a frame that is begun while a poll is in
flight waits for that poll, whatever it was armed for.

* `WriteOffered` says that what a connection is sending was offered, and that its poll is the right
  one.
* `Waiting` says that `ws_try_send_pending` would begin a frame, and `Flows` that no frame begins
  behind a poll, nor is lost to a failure that nobody looks at.
* `always_writeOffered` is the result: the statement holds all along a run in which that is so.
-/

namespace Edgehost.Tls

variable {η P υ ω : Type*}

/-! ## Statement -/

/-- What is being sent was offered to `SSL_write`, and the poll in flight is the one it asked for. -/
def WriteOffered (c : Conn η ω) : Prop :=
  c.ssl.isSome → c.state = .send ∨ c.state = .wsSend → c.sendOff < c.sendLen →
    c.log.offered = true ∧ c.pollPending = true ∧ c.log.armed = c.log.wanted

/-- The next frame of a WebSocket fits into the send buffer. -/
def Sendable (o : LoopOpts η) (env : LoopEnv η P υ ω) (ws : ω) : Prop :=
  (env.ws.getOutput ws o.sendCap).1 ≠ [] ∧ (env.ws.getOutput ws o.sendCap).1.length < o.sendCap

/-- There is a frame to send: one that the WebSocket has queued, or one for the first message of the
hub. -/
def Waiting (o : LoopOpts η) (env : LoopEnv η P υ ω) (hub : Option EdgeWsHub) (ws : ω) (slot : ℕ) :
    Prop :=
  ∃ h ∈ hub, Sendable o env ws ∨
    (env.ws.getOutput ws o.sendCap).1 = [] ∧
      (edgeWsHubTakePending h slot EDGE_WS_MSG_MAX).2.1 = 1 ∧
        ∃ ws' ∈ env.ws.sendText (env.ws.getOutput ws o.sendCap).2
          (edgeWsHubTakePending h slot EDGE_WS_MSG_MAX).2.2, Sendable o env ws'

instance (o : LoopOpts η) (env : LoopEnv η P υ ω) (ws : ω) : Decidable (Sendable o env ws) :=
  inferInstanceAs (Decidable (_ ∧ _))

instance (o : LoopOpts η) (env : LoopEnv η P υ ω) (hub : Option EdgeWsHub) (ws : ω) (slot : ℕ) :
    Decidable (Waiting o env hub ws slot) := inferInstanceAs (Decidable (∃ _ ∈ _, _))

/-- Nothing waits for a connection that becomes a WebSocket one. -/
def JoinsIdle (o : LoopOpts η) (env : LoopEnv η P υ ω) (hub : Option EdgeWsHub) (slot : ℕ) : Prop :=
  ∀ ws ∈ env.ws.create, ∀ h ∈ hub, (edgeWsHubSubscribe h slot).2 = 0 →
    ¬ Waiting o env (some (edgeWsHubSubscribe h slot).1) ws slot

instance (o : LoopOpts η) (env : LoopEnv η P υ ω) (hub : Option EdgeWsHub) (slot : ℕ) :
    Decidable (JoinsIdle o env hub slot) := inferInstanceAs (Decidable (∀ _ ∈ _, _))

/-- `SSL_write` takes bytes until it asks for a poll; it does not fail before. -/
def Reliable : List WriteAnswer → Prop
  | .wrote _ :: answers => Reliable answers
  | .want _ :: _ => True
  | _ => False

/-- The answers after those that take the first `left` bytes, if these all go out. -/
def afterBuffer : ℕ → List WriteAnswer → Option (List WriteAnswer)
  | left, .wrote n :: answers =>
    if left ≤ n + 1 then some answers else afterBuffer (left - (n + 1)) answers
  | _, _ => none

/-- When the buffer is out, no frame waits, or the frames that wait can go out or be polled for. -/
def Carries (o : LoopOpts η) (env : LoopEnv η P υ ω) (io : LoopIo P υ) (ws : Option ω) (slot : ℕ)
    (left : ℕ) (answers : List WriteAnswer) : Prop :=
  (∀ w ∈ ws, ¬ Waiting o env io.world.hub w slot) ∨
    ∀ rest ∈ afterBuffer left answers, Reliable rest ∧ io.sq.length < o.ringEntries

/-- The condition on a poll completion, by the state that it finds. -/
structure PollFlows (o : LoopOpts η) (env : LoopEnv η P υ ω) (io : LoopIo P υ) (c : Conn η ω) :
    Prop where
  recv : c.state = .recv → ∀ ssl ∈ c.ssl, ∀ http ∈ c.http, ∀ data,
    (edgeTlsRead ssl RECV_BUF (env.ssl c.slot).record).2 = .data data →
      let served := edgeHttp1ServeFeed env.serve http io.world data o.sendCap
      0 < served.ret → served.serve.wsUpgrade = true →
        (afterBuffer served.out.length (env.ssl c.slot).writes).isSome →
          JoinsIdle o env served.world.hub c.slot
  send : c.state = .send → c.keepWs = true →
    (afterBuffer (c.sendLen - c.sendOff) (env.ssl c.slot).writes).isSome →
      JoinsIdle o env io.world.hub c.slot
  wsRecv : c.state = .wsRecv → ∀ ssl ∈ c.ssl, ∀ ws ∈ c.ws, ∀ data,
    (edgeTlsRead ssl RECV_BUF (env.ssl c.slot).record).2 = .data data →
      let fed := env.ws.feedInput ws data
      let r := wsEvents env.toLoopEnv fed.1 fed.2
      let out := env.ws.getOutput r.1 o.sendCap
      r.2 = 0 → Sendable o env r.1 →
        Carries o env io (some out.2) c.slot out.1.length (env.ssl c.slot).writes
  wsSend : c.state = .wsSend →
    Carries o env io c.ws c.slot (c.sendLen - c.sendOff) (env.ssl c.slot).writes

/-- No frame begins behind a poll in flight, and none that `ws_try_send_pending` begins meets a
failure. Receives and sends complete only if the connection has submitted them. -/
def Flows (o : LoopOpts η) (c : Conn η ω) : ConnEvent η P υ ω → Prop
  | .recv .. => c.recvPending = true
  | .send .. => c.sendPending = true
  | .poll env io ok => ok = true → PollFlows o env io c
  | .fanOut env io => c.state = .wsRecv → edgeWsHubIsSubscribed io.world.hub c.slot = true →
      ∀ ws ∈ c.ws, Waiting o env io.world.hub ws c.slot →
        c.pollPending = false ∧ Reliable (env.ssl c.slot).writes ∧ io.sq.length < o.ringEntries

/-! ## Between steps -/

/-- A live TLS connection waits by polls alone, and is not yet to be upgraded while it receives. -/
structure OnTls (c : Conn η ω) : Prop where
  ssl : c.ssl.isSome
  recv : c.recvPending = false
  send : c.sendPending = false
  keep : c.state = .tlsHs ∨ c.state = .recv → c.keepWs = false

/-- A TLS connection between two steps. -/
def AtRest (c : Conn η ω) : Prop := c.state = .free ∨ OnTls c ∧ WriteOffered c

theorem OnTls.not_isNone {c : Conn η ω} (h : OnTls c) : ¬ c.ssl.isNone = true := by
  rw [Option.isNone_iff_eq_none]
  exact Option.isSome_iff_ne_none.mp h.ssl

/-- A connection that is not sending. -/
theorem OnTls.rest {c : Conn η ω} (h : OnTls c) (hst : c.state ≠ .send ∧ c.state ≠ .wsSend) :
    AtRest c :=
  .inr ⟨h, fun _ hsend => absurd hsend (not_or.mpr hst)⟩

/-- A connection whose buffer is out. -/
theorem OnTls.rest_sent {c : Conn η ω} (h : OnTls c) (hout : c.sendLen ≤ c.sendOff) : AtRest c :=
  .inr ⟨h, fun _ _ hlt => absurd hlt (not_lt.mpr hout)⟩

theorem AtRest.onTls {c : Conn η ω} (h : AtRest c) (hc : c.state ≠ .free) : OnTls c :=
  (h.resolve_left hc).1

/-- A connection at rest has been offered what it has to send. -/
theorem AtRest.writeOffered {c : Conn η ω} (h : AtRest c) : WriteOffered c := by
  rcases h with hfree | ⟨-, hoffered⟩
  · intro _ hst
    rcases hst with hst | hst <;> exact absurd (hfree.symm.trans hst) (by decide)
  · exact hoffered

/-- A connection that is closed is at rest. -/
theorem closeOnError_rest {r : LoopIo P υ × Conn η ω × ℤ} (h : r.2.2 = 0 → AtRest r.2.1) :
    AtRest (closeOnError r).2 := by
  unfold closeOnError
  split_ifs with hrc
  · exact .inl (closeConn_free r.1 r.2.1)
  · exact h (not_not.mp hrc)

/-- A poll while the connection is not sending. -/
theorem submitPoll_rest (o : LoopOpts η) (io : LoopIo P υ) {c : Conn η ω} (hc : OnTls c)
    (hst : c.state ≠ .send ∧ c.state ≠ .wsSend) (w : Bool) : AtRest (submitPoll o io c w).2.1 := by
  unfold submitPoll
  split_ifs
  · exact hc.rest hst
  · cases getSqe o io ⟨.poll w, c.slot, c.born⟩ with
    | none => exact OnTls.rest (c := c.broke) ⟨hc.ssl, hc.recv, hc.send, hc.keep⟩ hst
    | some io =>
      exact OnTls.rest (c := { c with pollPending := true, log := { c.log with armed := w } })
        ⟨hc.ssl, hc.recv, hc.send, hc.keep⟩ hst

/-- Waiting for input leaves a connection at rest. -/
theorem submitRecv_rest (o : LoopOpts η) (io : LoopIo P υ) {c : Conn η ω} (hc : AtRest c) :
    AtRest (submitRecv o io c).2.1 := by
  unfold submitRecv
  by_cases hidle : c.recvPending ∨ c.pollPending ∨
      c.state ≠ .recv ∧ c.state ≠ .wsRecv ∧ c.state ≠ .tlsHs
  · rw [if_pos hidle]
    exact hc
  · rw [if_neg hidle]
    have hst : c.state = .recv ∨ c.state = .wsRecv ∨ c.state = .tlsHs := by
      by_contra hno
      exact hidle (.inr (.inr (by simpa [not_or] using hno)))
    have hon := hc.onTls (by rcases hst with h | h | h <;> simp [h])
    rw [if_pos hon.ssl]
    exact submitPoll_rest o io hon (by rcases hst with h | h | h <;> simp [h]) false

/-- The poll that `SSL_write` asked for. -/
theorem submitPoll_offered (o : LoopOpts η) (io : LoopIo P υ) {c : Conn η ω} (hc : OnTls c)
    (hpoll : c.pollPending = false) (hoff : c.log.offered = true) {w : Bool}
    (hw : c.log.wanted = w) :
    ((submitPoll o io c w).2.2 = 0 → AtRest (submitPoll o io c w).2.1) ∧
      (io.sq.length < o.ringEntries → AtRest (submitPoll o io c w).2.1) := by
  have harmed : AtRest { c with pollPending := true, log := { c.log with armed := w } } :=
    .inr ⟨⟨hc.ssl, hc.recv, hc.send, hc.keep⟩, fun _ _ _ => ⟨hoff, rfl, hw.symm⟩⟩
  unfold submitPoll getSqe
  rw [if_neg (by simp [hpoll])]
  by_cases hroom : io.sq.length < o.ringEntries
  · rw [if_pos hroom]
    exact ⟨fun _ => harmed, fun _ => harmed⟩
  · rw [if_neg hroom]
    have hfailed : (-1 : ℤ) ≠ 0 := by decide
    exact ⟨fun hrc => absurd hrc hfailed, fun h => absurd h hroom⟩

/-! ## Frames -/

/-- The connections agree on all that a TLS connection waits by. -/
structure WaitsAlike (c c' : Conn η ω) : Prop where
  slot : c'.slot = c.slot
  state : c'.state = c.state
  ssl : c'.ssl = c.ssl
  recvPending : c'.recvPending = c.recvPending
  sendPending : c'.sendPending = c.sendPending
  pollPending : c'.pollPending = c.pollPending
  keepWs : c'.keepWs = c.keepWs

theorem WaitsAlike.onTls {c c' : Conn η ω} (h : WaitsAlike c c') (hc : OnTls c) : OnTls c' where
  ssl := h.ssl ▸ hc.ssl
  recv := h.recvPending.trans hc.recv
  send := h.sendPending.trans hc.send
  keep hst := h.keepWs.trans (hc.keep (h.state ▸ hst))

theorem withFrame_alike (o : LoopOpts η) (env : LoopEnv η P υ ω) (c : Conn η ω) (ws : ω) :
    WaitsAlike c (c.withFrame o env ws) := ⟨rfl, rfl, rfl, rfl, rfl, rfl, rfl⟩

section

variable {send : LoopIo P υ → Conn η ω → LoopIo P υ × Conn η ω × ℤ}

/-- What `ws_flush_output` does with a connection that is free to send. -/
theorem wsFlushOutput_eq (o : LoopOpts η) (env : LoopEnv η P υ ω) (io : LoopIo P υ) {c : Conn η ω}
    {ws : ω} (hws : c.ws = some ws) (hfree : ¬ (c.sendPending = true ∨ c.state = .wsSend)) :
    wsFlushOutput send o env io c =
      if (env.ws.getOutput ws o.sendCap).1 = [] then (io, c.withFrame o env ws, 0)
      else if (env.ws.getOutput ws o.sendCap).1.length ≥ o.sendCap then
        (io, c.withFrame o env ws, -1)
      else sendFrame send io (c.withFrame o env ws) (env.ws.getOutput ws o.sendCap).1.length := by
  unfold wsFlushOutput
  rw [hws]
  simp only
  rw [if_neg hfree]
  rfl

/-- A frame that could not be begun is reported. -/
theorem sendFrame_failed {io : LoopIo P υ} {c : Conn η ω} {len : ℕ}
    (h : (beginSendBuf send io c len .wsSend).2.2 ≠ 0) : (sendFrame send io c len).2.2 < 0 := by
  simp only [sendFrame]
  rw [if_neg h]
  decide

/-- Where a fan-out may be tried, there is a WebSocket, a hub and no send under way. -/
theorem exists_of_not_skips {io : LoopIo P υ} {c : Conn η ω} (hopen : ¬Skips io c) :
    (∃ ws, c.ws = some ws) ∧ (∃ hub, io.world.hub = some hub) ∧
      ¬(c.sendPending = true ∨ c.state = .wsSend) := by
  obtain ⟨hws, hhub, hst, hsend⟩ : c.ws.isNone ≠ true ∧ io.world.hub.isNone ≠ true ∧
      c.state ≠ .wsSend ∧ c.sendPending ≠ true := by
    simpa only [Skips, not_or, ne_eq] using hopen
  exact ⟨Option.ne_none_iff_exists'.mp (mt Option.isNone_iff_eq_none.mpr hws),
    Option.ne_none_iff_exists'.mp (mt Option.isNone_iff_eq_none.mpr hhub), fun h => h.elim hsend hst⟩

/-- The library had no frame queued. -/
theorem wsFlushOutput_zero {o : LoopOpts η} {env : LoopEnv η P υ ω} {io io₁ : LoopIo P υ} {c c₁ : Conn η ω}
    {ws : ω} (hws : c.ws = some ws) (hfree : ¬(c.sendPending = true ∨ c.state = .wsSend))
    (heq : wsFlushOutput send o env io c = (io₁, c₁, 0)) :
    (env.ws.getOutput ws o.sendCap).1 = [] ∧ io₁ = io ∧ c₁ = c.withFrame o env ws := by
  rw [wsFlushOutput_eq o env io hws hfree] at heq
  split_ifs at heq with hnone hbig
  · obtain ⟨rfl, h⟩ := Prod.mk.inj heq
    exact ⟨hnone, rfl, (Prod.mk.inj h).1.symm⟩
  · exact absurd (congrArg (fun r => r.2.2) heq) (show (-1 : ℤ) ≠ 0 by decide)
  · exact absurd (congrArg (fun r => r.2.2) heq) (sendFrame_ne_zero _ _ _)

/-- **What `ws_try_send_pending` does**: it begins a frame that waits, or nothing. -/
theorem wsTrySendPending_cases (send : LoopIo P υ → Conn η ω → LoopIo P υ × Conn η ω × ℤ)
    (o : LoopOpts η) (env : LoopEnv η P υ ω) (io : LoopIo P υ) (c : Conn η ω) :
    WaitsAlike c (wsTrySendPending send o env io c).2.1 ∨
      (∃ ws ∈ c.ws, Waiting o env io.world.hub ws c.slot) ∧
        ∃ (io₁ : LoopIo P υ) (c₁ : Conn η ω) (len : ℕ), WaitsAlike c c₁ ∧ io₁.sq = io.sq ∧
          (wsTrySendPending send o env io c).2.1 = (sendFrame send io₁ c₁ len).2.1 := by
  have htried := wsTrySendPending_tried send o env io c
  generalize wsTrySendPending send o env io c = r at htried ⊢
  cases htried with
  | skipped hskip => exact .inl ⟨rfl, rfl, rfl, rfl, rfl, rfl, rfl⟩
  | flushed hopen hrc =>
    obtain ⟨⟨ws, hws⟩, ⟨hub, hhub⟩, hfree⟩ := exists_of_not_skips hopen
    have halike := withFrame_alike o env c ws
    rw [wsFlushOutput_eq o env io hws hfree] at hrc ⊢
    -- A frame that the library has queued goes first.
    by_cases hnone : (env.ws.getOutput ws o.sendCap).1 = []
    · rw [if_pos hnone]
      exact .inl halike
    rw [if_neg hnone]
    by_cases hbig : (env.ws.getOutput ws o.sendCap).1.length ≥ o.sendCap
    · rw [if_pos hbig]
      exact .inl halike
    · rw [if_neg hbig]
      exact .inr ⟨⟨ws, hws, hub, hhub, .inl ⟨hnone, not_le.mp hbig⟩⟩, io, c.withFrame o env ws,
        (env.ws.getOutput ws o.sendCap).1.length, halike, rfl, rfl⟩
  | unsent hopen heq rc =>
    obtain ⟨⟨ws, hws⟩, -, hfree⟩ := exists_of_not_skips hopen
    obtain ⟨-, -, rfl⟩ := wsFlushOutput_zero hws hfree heq
    exact .inl (withFrame_alike o env c ws)
  | cut hopen heq ws' =>
    obtain ⟨⟨ws, hws⟩, -, hfree⟩ := exists_of_not_skips hopen
    obtain ⟨-, -, rfl⟩ := wsFlushOutput_zero hws hfree heq
    exact .inl ⟨rfl, rfl, rfl, rfl, rfl, rfl, rfl⟩
  | @framed io₁ c₁ hopen heq ws' hone htext hfits =>
    -- Then the first message of the hub, if there is one.
    obtain ⟨⟨ws, hws⟩, ⟨hub, hhub⟩, hfree⟩ := exists_of_not_skips hopen
    obtain ⟨hnone, rfl, rfl⟩ := wsFlushOutput_zero hws hfree heq
    have htake : takePending io₁ c.slot =
        ({ io₁ with world := { io₁.world with
            hub := some (edgeWsHubTakePending hub c.slot EDGE_WS_MSG_MAX).1 } },
          (edgeWsHubTakePending hub c.slot EDGE_WS_MSG_MAX).2) := by
      unfold takePending
      rw [hhub]
    have hslot : (c.withFrame o env ws).slot = c.slot := rfl
    rw [hslot, htake] at hone htext
    rw [not_or, not_le] at hfits
    refine .inr ⟨⟨ws, hws, hub, hhub, .inr ⟨hnone, hone, ws', htext, hfits⟩⟩, (takePending io₁ c.slot).1,
      (c.withFrame o env ws).withFrame o env ws', (env.ws.getOutput ws' o.sendCap).1.length,
      ⟨rfl, rfl, rfl, rfl, rfl, rfl, rfl⟩, ?_, rfl⟩
    rw [htake]

/-- A submission of sends that leaves the connection of a slot at rest when it begins a frame, whatever
becomes of the frame. -/
def Covers (o : LoopOpts η) (slot : ℕ)
    (send : LoopIo P υ → Conn η ω → LoopIo P υ × Conn η ω × ℤ) : Prop :=
  ∀ io c, c.slot = slot → OnTls c → c.state = .wsSend → c.pollPending = false →
    io.sq.length < o.ringEntries → AtRest (send io c).2.1

/-- A frame is offered when its send begins. -/
theorem sendFrame_rest {o : LoopOpts η} {io : LoopIo P υ} {c : Conn η ω}
    (hsend : Covers o c.slot send) (hc : OnTls c) (hpoll : c.pollPending = false)
    (hroom : io.sq.length < o.ringEntries) (len : ℕ) :
    AtRest (sendFrame send io c len).2.1 :=
  hsend io _ rfl ⟨hc.ssl, hc.recv, hc.send, by simp⟩ rfl hpoll hroom

/-- So is a message of the hub. -/
theorem wsTrySendPending_rest (o : LoopOpts η) (env : LoopEnv η P υ ω) {io : LoopIo P υ}
    {c : Conn η ω} (hc : OnTls c) (hst : c.state = .wsRecv)
    (hsend : (∃ ws ∈ c.ws, Waiting o env io.world.hub ws c.slot) →
      Covers o c.slot send ∧ c.pollPending = false ∧ io.sq.length < o.ringEntries) :
    AtRest (wsTrySendPending send o env io c).2.1 := by
  rcases wsTrySendPending_cases send o env io c with
    halike | ⟨hwaits, io₁, c₁, len, halike, hsq, hbegun⟩
  · exact (halike.onTls hc).rest (by simp [halike.state, hst])
  · obtain ⟨hcovers, hpoll, hroom⟩ := hsend hwaits
    rw [hbegun]
    exact sendFrame_rest (halike.slot ▸ hcovers) (halike.onTls hc)
      (halike.pollPending.trans hpoll) (hsq ▸ hroom) len

/-- A frame is out. -/
theorem handleSendComplete_rest (o : LoopOpts η) (env : LoopEnv η P υ ω) {io : LoopIo P υ}
    {c : Conn η ω} (hc : OnTls c) (hst : c.state = .wsSend) (hpoll : c.pollPending = false)
    (hsend : (∃ ws ∈ c.ws, Waiting o env io.world.hub ws c.slot) →
      Covers o c.slot send ∧ io.sq.length < o.ringEntries) :
    AtRest (handleSendComplete send o env io c).2.1 := by
  let c₁ : Conn η ω := { c with state := .wsRecv }
  have hon : OnTls c₁ := ⟨hc.ssl, hc.recv, hc.send, by simp [c₁]⟩
  have htry : AtRest (wsTrySendPending send o env io c₁).2.1 :=
    wsTrySendPending_rest o env hon rfl fun hwaits =>
      ⟨(hsend hwaits).1, hpoll, (hsend hwaits).2⟩
  unfold handleSendComplete
  rw [if_neg (by simp [hst]), if_pos hst]
  simp only
  split_ifs
  · exact submitRecv_rest o _ htry
  · exact htry

/-- A receive touches neither the stream nor the process. -/
theorem submitRecv_keeps (o : LoopOpts η) (io : LoopIo P υ) (c : Conn η ω) :
    (submitRecv o io c).1.world = io.world ∧ (submitRecv o io c).2.1.ws = c.ws ∧
      (submitRecv o io c).2.1.slot = c.slot ∧ (submitRecv o io c).2.1.state = c.state := by
  unfold submitRecv submitPoll getSqe
  split_ifs <;> exact ⟨rfl, rfl, rfl, rfl⟩

/-- The upgrade is out. -/
theorem promoteToWs_rest (o : LoopOpts η) (env : LoopEnv η P υ ω) {io : LoopIo P υ} {c : Conn η ω}
    (hc : OnTls c) (hjoins : JoinsIdle o env io.world.hub c.slot)
    (hrc : (promoteToWs send o env io c).2.2 = 0) :
    AtRest (promoteToWs send o env io c).2.1 := by
  have hfailed : (-1 : ℤ) ≠ 0 := by decide
  unfold promoteToWs at hrc ⊢
  cases hws : env.ws.create with
  | none =>
    rw [hws] at hrc
    exact absurd hrc hfailed
  | some ws =>
    cases hhub : io.world.hub with
    | none =>
      rw [hws, hhub] at hrc
      exact absurd hrc hfailed
    | some hub =>
      simp only [hws, hhub] at hrc ⊢
      by_cases hsub : (edgeWsHubSubscribe hub c.slot).2 = 0
      case neg =>
        rw [if_pos hsub] at hrc
        exact absurd hrc hfailed
      rw [if_neg (not_not.mpr hsub)] at hrc ⊢
      let io₁ : LoopIo P υ :=
        { io with world := { io.world with hub := some (edgeWsHubSubscribe hub c.slot).1 } }
      let c₁ : Conn η ω := { c with ws := some ws, keepWs := false, state := .wsRecv, http := none }
      have hon : OnTls c₁ := ⟨hc.ssl, hc.recv, hc.send, fun _ => rfl⟩
      obtain ⟨hworld, hws', hslot, hst⟩ := submitRecv_keeps o io₁ c₁
      have hrest := submitRecv_rest o io₁ (hon.rest (by simp [c₁]))
      by_cases hrecv : (submitRecv o io₁ c₁).2.2 = 0
      case neg =>
        rw [if_pos hrecv] at hrc
        exact absurd hrc hfailed
      rw [if_neg (not_not.mpr hrecv)]
      -- The receive has armed a poll, so a frame begun now would wait for it: there is none.
      refine wsTrySendPending_rest o env (hrest.onTls (by simp [hst, c₁])) hst ?_
      rintro ⟨w, hw, hwaits⟩
      rw [hws'] at hw
      rw [hworld, hslot] at hwaits
      rw [← Option.some.inj hw] at hwaits
      exact absurd hwaits (hjoins ws hws hub hhub hsub)

/-- A response is out. -/
theorem sendComplete_rest (o : LoopOpts η) (env : LoopEnv η P υ ω) {io : LoopIo P υ} {c : Conn η ω}
    (hc : OnTls c) (hst : c.state = .send)
    (hjoins : c.keepWs = true → JoinsIdle o env io.world.hub c.slot)
    (hrc : (handleSendComplete send o env io c).2.2 = 0) :
    AtRest (handleSendComplete send o env io c).2.1 := by
  unfold handleSendComplete at hrc ⊢
  by_cases hkeep : c.keepWs = true
  · rw [if_pos ⟨hst, hkeep⟩] at hrc ⊢
    exact promoteToWs_rest o env hc (hjoins hkeep) hrc
  · rw [if_neg fun h => hkeep h.2, if_neg (by simp [hst])]
    exact .inl (closeConn_free io c)

end

/-! ## Writing -/

/-- What offers the bytes of a TLS connection offers them for its sends. -/
theorem submitSendBy_covers {o : LoopOpts η} {slot : ℕ}
    {drive : LoopIo P υ → Conn η ω → LoopIo P υ × Conn η ω × ℤ} (hdrive : Covers o slot drive) :
    Covers o slot (submitSendBy o drive) := by
  intro io c hslot hc hst hpoll hroom
  unfold submitSendBy
  by_cases hidle : c.sendPending ∨ c.pollPending ∨ c.sendOff ≥ c.sendLen
  · rw [if_pos hidle]
    refine hc.rest_sent ?_
    simpa [hc.send, hpoll] using hidle
  · rw [if_neg hidle, if_pos hc.ssl]
    exact hdrive io c hslot hc hst hpoll hroom

/-- Frames that meet no failure, by induction on the answers of `SSL_write`. -/
theorem tlsDriveWrite_covers (o : LoopOpts η) (env : LoopEnv η P υ ω) (slot : ℕ)
    (answers : List WriteAnswer) (hrel : Reliable answers) :
    Covers o slot (tlsDriveWrite o env answers) := by
  induction answers with
  | nil => exact absurd hrel id
  | cons answer answers ih =>
    intro io c hslot hc hst hpoll hroom
    rw [tlsDriveWrite]
    split_ifs with hdone
    · exact hc.rest_sent (hdone.resolve_left hc.not_isNone)
    cases answer with
    | failed => exact absurd hrel id
    | want write =>
      exact (submitPoll_offered o io (c := { c with log :=
        { c.log with offered := true, wanted := write } }) ⟨hc.ssl, hc.recv, hc.send, hc.keep⟩ hpoll rfl
        rfl).2 hroom
    | wrote n =>
      simp only
      generalize min (n + 1) (c.sendLen - c.sendOff) = k
      let c₁ : Conn η ω := Conn.advance { c with log := { c.log with offered := true } } k
      have hon : OnTls c₁ := ⟨hc.ssl, hc.recv, hc.send, hc.keep⟩
      split_ifs
      · exact handleSendComplete_rest o env (c := c₁) hon hst hpoll fun _ =>
          ⟨submitSendBy_covers (show Covers o c.slot _ from hslot ▸ ih hrel), hroom⟩
      · exact ih hrel _ c₁ hslot hon hst hpoll hroom

/-- **The buffer that is being sent**, by induction on the answers of `SSL_write`: a failure is
reported, and otherwise the connection is left at rest. -/
theorem tlsDriveWrite_rest (o : LoopOpts η) (env : LoopEnv η P υ ω) (answers : List WriteAnswer) :
    ∀ {io : LoopIo P υ} {c : Conn η ω}, OnTls c → c.pollPending = false →
      (c.state = .send ∧ (c.keepWs = true → (afterBuffer (c.sendLen - c.sendOff) answers).isSome →
          JoinsIdle o env io.world.hub c.slot) ∨
        c.state = .wsSend ∧ Carries o env io c.ws c.slot (c.sendLen - c.sendOff) answers) →
      (tlsDriveWrite o env answers io c).2.2 = 0 →
        AtRest (tlsDriveWrite o env answers io c).2.1 := by
  have hfailed : (-1 : ℤ) ≠ 0 := by decide
  induction answers with
  | nil =>
    intro io c hc hpoll hst hrc
    rw [tlsDriveWrite] at hrc ⊢
    split_ifs at hrc ⊢ with hdone
    · exact hc.rest_sent (hdone.resolve_left hc.not_isNone)
    · exact absurd hrc hfailed
  | cons answer answers ih =>
    intro io c hc hpoll hst hrc
    rw [tlsDriveWrite] at hrc ⊢
    split_ifs at hrc ⊢ with hdone
    · exact hc.rest_sent (hdone.resolve_left hc.not_isNone)
    rw [not_or, not_le] at hdone
    cases answer with
    | failed => exact absurd hrc hfailed
    | want write =>
      exact (submitPoll_offered o io (c := { c with log :=
        { c.log with offered := true, wanted := write } }) ⟨hc.ssl, hc.recv, hc.send, hc.keep⟩ hpoll rfl
        rfl).1 hrc
    | wrote n =>
      simp only at hrc ⊢
      let c₁ : Conn η ω := Conn.advance { c with log := { c.log with offered := true } }
        (min (n + 1) (c.sendLen - c.sendOff))
      have hon : OnTls c₁ := ⟨hc.ssl, hc.recv, hc.send, hc.keep⟩
      have hleft : c₁.sendLen - c₁.sendOff = c.sendLen - c.sendOff - (n + 1) := by
        show c.sendLen - (c.sendOff + min (n + 1) (c.sendLen - c.sendOff)) = _
        omega
      by_cases hout : c₁.sendOff ≥ c₁.sendLen
      -- The buffer is out, and the remaining answers are for the frames after it.
      · have hlast : afterBuffer (c.sendLen - c.sendOff) (.wrote n :: answers) = some answers := by
          rw [afterBuffer, if_pos (by omega)]
        rw [if_pos hout] at hrc ⊢
        rcases hst with ⟨hst, hjoins⟩ | ⟨hst, hcarries⟩
        · refine sendComplete_rest o env hon hst (fun hkeep => hjoins hkeep ?_) hrc
          rw [hlast]
          rfl
        · refine handleSendComplete_rest o env hon hst hpoll ?_
          rintro ⟨ws, hws, hwaits⟩
          obtain ⟨hrel, hroom⟩ := hcarries.resolve_left (fun hno => hno ws hws hwaits) answers hlast
          exact ⟨submitSendBy_covers (tlsDriveWrite_covers o env c.slot answers hrel), hroom⟩
      · have hnext : afterBuffer (c.sendLen - c.sendOff) (.wrote n :: answers) =
            afterBuffer (c₁.sendLen - c₁.sendOff) answers := by
          rw [afterBuffer, if_neg (by omega), hleft]
        rw [if_neg hout] at hrc ⊢
        rw [Carries, hnext] at hst
        exact ih hon hpoll hst hrc

/-- A buffer that is begun. -/
theorem submitSend_rest (o : LoopOpts η) (env : LoopEnv η P υ ω) {io : LoopIo P υ} {c : Conn η ω}
    (hc : OnTls c) (hpoll : c.pollPending = false)
    (hst : c.state = .send ∧ (c.keepWs = true →
        (afterBuffer (c.sendLen - c.sendOff) (env.ssl c.slot).writes).isSome →
          JoinsIdle o env io.world.hub c.slot) ∨
      c.state = .wsSend ∧
        Carries o env io c.ws c.slot (c.sendLen - c.sendOff) (env.ssl c.slot).writes)
    (hrc : (submitSend o env io c).2.2 = 0) : AtRest (submitSend o env io c).2.1 := by
  unfold submitSend submitSendBy at hrc ⊢
  by_cases hidle : c.sendPending ∨ c.pollPending ∨ c.sendOff ≥ c.sendLen
  · rw [if_pos hidle]
    refine hc.rest_sent ?_
    simpa [hc.send, hpoll] using hidle
  · rw [if_neg hidle, if_pos hc.ssl] at hrc ⊢
    exact tlsDriveWrite_rest o env _ hc hpoll hst hrc

/-! ## Input -/

section

variable (o : LoopOpts η) (env : LoopEnv η P υ ω) (io : LoopIo P υ) {c : Conn η ω} (hc : OnTls c)

include hc

/-- A handshake that goes on waits. -/
theorem pollHandshake_rest (hst : c.state = .tlsHs) (hrc : (pollHandshake o env io c).2.2 = 0) :
    AtRest (pollHandshake o env io c).2.1 := by
  have hfailed : (-1 : ℤ) ≠ 0 := by decide
  unfold pollHandshake at hrc ⊢
  cases hhs : (env.ssl c.slot).handshake with
  | done =>
    have hon : OnTls { c with state := .recv } :=
      ⟨hc.ssl, hc.recv, hc.send, fun _ => hc.keep (.inl hst)⟩
    exact submitRecv_rest o io (hon.rest (by simp))
  | want write => exact submitPoll_rest o io hc (by simp [hst]) write
  | failed =>
    rw [hhs] at hrc
    exact absurd hrc hfailed

/-- The refusal is offered. -/
theorem beginBadRequestPlain_rest (hpoll : c.pollPending = false) (hst : c.state = .recv)
    (hrc : (beginBadRequestPlain o env io c).2.2 = 0) :
    AtRest (beginBadRequestPlain o env io c).2.1 := by
  have hfailed : (-1 : ℤ) ≠ 0 := by decide
  unfold beginBadRequestPlain at hrc ⊢
  split_ifs at hrc ⊢
  · exact absurd hrc hfailed
  · refine submitSend_rest o env ⟨hc.ssl, hc.recv, hc.send, by simp⟩ hpoll (.inl ⟨rfl, ?_⟩) hrc
    intro hkeep
    exact absurd (hc.keep (.inr hst)) (by simp [show c.keepWs = true from hkeep])

/-- **Bytes of a request**: the answer is offered, or the connection waits for more. -/
theorem handleHttpBytes_rest (hpoll : c.pollPending = false) (hst : c.state = .recv) {data : Bytes}
    (hjoins : ∀ http ∈ c.http, let served := edgeHttp1ServeFeed env.serve http io.world data o.sendCap
      0 < served.ret → served.serve.wsUpgrade = true →
        (afterBuffer served.out.length (env.ssl c.slot).writes).isSome →
          JoinsIdle o env served.world.hub c.slot)
    (hrc : (handleHttpBytes o env io c data).2.2.1 = 0) :
    AtRest (handleHttpBytes o env io c data).2.1 := by
  have hfailed : (-1 : ℤ) ≠ 0 := by decide
  unfold handleHttpBytes at hrc ⊢
  by_cases hdata : data = []
  · rw [if_pos hdata] at hrc ⊢
    refine beginBadRequestPlain_rest o env io hc hpoll hst ?_
    by_contra hno
    simp only [ne_eq, hno, not_false_eq_true, if_true] at hrc
    exact hfailed hrc
  rw [if_neg hdata] at hrc ⊢
  cases hhttp : c.http with
  | none =>
    rw [hhttp] at hrc
    exact absurd hrc hfailed
  | some http =>
    have hjoin := hjoins http hhttp
    rw [hhttp] at hrc
    simp only at hrc hjoin ⊢
    generalize edgeHttp1ServeFeed env.serve http io.world data o.sendCap = served at hrc hjoin
    by_cases hneg : served.ret < 0
    · rw [if_pos hneg] at hrc
      exact absurd hrc hfailed
    rw [if_neg hneg] at hrc ⊢
    by_cases hmore : served.ret = 0
    · rw [if_pos hmore]
      have hon : OnTls (Conn.writeBuf { c with http := some served.serve } served.out) :=
        ⟨hc.ssl, hc.recv, hc.send, hc.keep⟩
      exact submitRecv_rest o _ (hon.rest (by simp [Conn.writeBuf, hst]))
    rw [if_neg hmore] at hrc ⊢
    split_ifs at hrc ⊢ with hbegin
    · exact absurd hrc hfailed
    · exact submitSend_rest o env ⟨hc.ssl, hc.recv, hc.send, by simp⟩ hpoll
        (.inl ⟨rfl, hjoin (by omega)⟩) (not_not.mp hbegin)

/-- **Frames of the client**: what answers them is offered. -/
theorem handleWsRecv_rest (hpoll : c.pollPending = false) (hst : c.state = .wsRecv) {data : Bytes}
    (hcarries : ∀ ws ∈ c.ws, let fed := env.ws.feedInput ws data
      let r := wsEvents env.toLoopEnv fed.1 fed.2
      let out := env.ws.getOutput r.1 o.sendCap
      r.2 = 0 → Sendable o env r.1 →
        Carries o env io (some out.2) c.slot out.1.length (env.ssl c.slot).writes)
    (hrc : (handleWsRecv o env io c data).2.2 = 0) :
    AtRest (handleWsRecv o env io c data).2.1 := by
  have hfailed : (-1 : ℤ) ≠ 0 := by decide
  unfold handleWsRecv at hrc ⊢
  cases hws : c.ws with
  | none =>
    rw [hws] at hrc
    exact absurd hrc hfailed
  | some ws =>
    have hcarry := hcarries ws hws
    rw [hws] at hrc
    simp only at hrc hcarry ⊢
    generalize wsEvents env.toLoopEnv (env.ws.feedInput ws data).1 (env.ws.feedInput ws data).2 = r
      at hrc hcarry
    by_cases hevents : r.2 = 0
    case neg =>
      rw [if_pos hevents] at hrc
      exact absurd hrc hfailed
    rw [if_neg (not_not.mpr hevents)] at hrc ⊢
    rw [if_pos ⟨hst, by simp [hc.send]⟩] at hrc ⊢
    let c₁ : Conn η ω := { c with ws := some r.1 }
    have hfree : ¬ (c₁.sendPending = true ∨ c₁.state = .wsSend) := by simp [c₁, hc.send, hst]
    have hon : OnTls (c₁.withFrame o env r.1) := ⟨hc.ssl, hc.recv, hc.send, hc.keep⟩
    have hrest : AtRest (c₁.withFrame o env r.1) :=
      hon.rest (by rw [(withFrame_alike o env c₁ r.1).state]; simp [c₁, hst])
    rw [wsFlushOutput_eq o env _ rfl hfree] at hrc ⊢
    by_cases hnone : (env.ws.getOutput r.1 o.sendCap).1 = []
    · rw [if_pos hnone]
      exact hrest
    rw [if_neg hnone] at hrc ⊢
    -- A frame as long as the buffer is dropped, and the connection waits on.
    by_cases hbig : (env.ws.getOutput r.1 o.sendCap).1.length ≥ o.sendCap
    · rw [if_pos hbig]
      exact hrest
    rw [if_neg hbig] at hrc ⊢
    refine submitSend_rest o env ⟨hc.ssl, hc.recv, hc.send, by simp⟩ hpoll
      (.inr ⟨rfl, hcarry hevents ⟨hnone, not_le.mp hbig⟩⟩) ?_
    by_contra hbegin
    have hneg : (sendFrame (submitSend o env) _ (c₁.withFrame o env r.1) _).2.2 < 0 :=
      sendFrame_failed hbegin
    simp only at hrc
    rw [if_pos hneg] at hrc
    exact hfailed hrc

/-- Behind them the connection receives again. -/
theorem pollWsData_rest (hpoll : c.pollPending = false) (hst : c.state = .wsRecv) {data : Bytes}
    (hcarries : ∀ ws ∈ c.ws, let fed := env.ws.feedInput ws data
      let r := wsEvents env.toLoopEnv fed.1 fed.2
      let out := env.ws.getOutput r.1 o.sendCap
      r.2 = 0 → Sendable o env r.1 →
        Carries o env io (some out.2) c.slot out.1.length (env.ssl c.slot).writes)
    (hrc : (pollWsData o env io c data).2.2 = 0) :
    AtRest (pollWsData o env io c data).2.1 := by
  have hfailed : (-1 : ℤ) ≠ 0 := by decide
  have hws := handleWsRecv_rest o env io hc hpoll hst hcarries
  unfold pollWsData at hrc ⊢
  simp only at hrc ⊢
  by_cases hrecv : (handleWsRecv o env io c data).2.2 = 0
  case neg =>
    rw [if_pos hrecv] at hrc
    exact absurd hrc hfailed
  rw [if_neg (not_not.mpr hrecv)]
  split_ifs
  · exact submitRecv_rest o _ (hws hrecv)
  · exact hws hrecv

end

section

variable (o : LoopOpts η) (env : LoopEnv η P υ ω) (io : LoopIo P υ) {c : Conn η ω}

/-- A poll completion, by the state that it finds. -/
theorem handleTlsPoll_rest (hc : OnTls c) (hpoll : c.pollPending = false) {ssl : Ssl}
    (hssl : c.ssl = some ssl) (hflows : PollFlows o env io c)
    (hrc : (handleTlsPoll o env io c ssl).2.2.1 = 0) :
    AtRest (handleTlsPoll o env io c ssl).2.1 := by
  have hfailed : (-1 : ℤ) ≠ 0 := by decide
  let c₁ : Conn η ω := { c with ssl := some (edgeTlsRead ssl RECV_BUF (env.ssl c.slot).record).1 }
  have hc₁ : OnTls c₁ := ⟨rfl, hc.recv, hc.send, hc.keep⟩
  unfold handleTlsPoll at hrc ⊢
  cases hst : c.state with
  | free => exact .inl hst
  | tlsHs =>
    rw [hst] at hrc
    exact pollHandshake_rest o env io hc hst hrc
  | recv =>
    rw [hst] at hrc
    simp only [pollHttp] at hrc ⊢
    cases hread : (edgeTlsRead ssl RECV_BUF (env.ssl c.slot).record).2 with
    | data data =>
      rw [hread] at hrc
      exact handleHttpBytes_rest o env io hc₁ hpoll hst
        (fun http hhttp => hflows.recv hst ssl hssl http hhttp data hread) hrc
    | want write => exact submitPoll_rest o io hc₁ (by simp [c₁, hst]) write
    | eof =>
      rw [hread] at hrc
      exact beginBadRequestPlain_rest o env io hc₁ hpoll hst hrc
    | failed =>
      rw [hread] at hrc
      exact absurd hrc hfailed
  | wsRecv =>
    rw [hst] at hrc
    simp only [pollWs] at hrc ⊢
    cases hread : (edgeTlsRead ssl RECV_BUF (env.ssl c.slot).record).2 with
    | data data =>
      rw [hread] at hrc
      exact pollWsData_rest o env io hc₁ hpoll hst
        (fun ws hws => hflows.wsRecv hst ssl hssl ws hws data hread) hrc
    | want write => exact submitPoll_rest o io hc₁ (by simp [c₁, hst]) write
    | eof =>
      rw [hread] at hrc
      exact absurd hrc hfailed
    | failed =>
      rw [hread] at hrc
      exact absurd hrc hfailed
  | send =>
    rw [hst] at hrc
    exact tlsDriveWrite_rest o env _ hc hpoll (.inl ⟨hst, hflows.send hst⟩) hrc
  | wsSend =>
    rw [hst] at hrc
    exact tlsDriveWrite_rest o env _ hc hpoll (.inr ⟨hst, hflows.wsSend hst⟩) hrc

/-- **A POLL completion leaves a connection at rest.** -/
theorem onPoll_rest (hc : AtRest c) (ok : Bool) (hflows : ok = true → PollFlows o env io c) :
    AtRest (onPoll o env io c ok).2.1 := by
  unfold onPoll
  split_ifs with hfree hok
  · exact hc
  · exact .inl (closeConn_free io _)
  have hflow := hflows (by simpa using hok)
  have hon := hc.onTls hfree
  let c₁ : Conn η ω := { c with pollPending := false }
  have hon₁ : OnTls c₁ := ⟨hon.ssl, hon.recv, hon.send, hon.keep⟩
  simp only
  split
  case h_1 hssl => exact absurd (Option.isNone_iff_eq_none.mpr hssl) hon.not_isNone
  case h_2 ssl hssl =>
    exact closeOnError_rest (r := (_, _, _)) fun hrc =>
      handleTlsPoll_rest o env io hon₁ rfl hssl
        ⟨hflow.recv, hflow.send, hflow.wsRecv, hflow.wsSend⟩ hrc

/-- So does the fan-out. -/
theorem flushPending_rest (hc : AtRest c) (hflows : Flows o c (.fanOut env io)) :
    AtRest (flushPending o env io c).2 := by
  unfold flushPending
  split_ifs with hsub
  · obtain ⟨hst, -, hsub⟩ := hsub
    refine wsTrySendPending_rest o env (hc.onTls (by simp [hst])) hst ?_
    rintro ⟨ws, hws, hwaits⟩
    obtain ⟨hpoll, hrel, hroom⟩ := hflows hst hsub ws hws hwaits
    refine ⟨?_, hpoll, hroom⟩
    rintro io₁ c₁ hslot
    rw [submitSend, hslot]
    exact submitSendBy_covers (tlsDriveWrite_covers o env c.slot _ hrel) io₁ c₁ hslot
  · exact hc

end

/-- **A step that begins no frame behind a poll leaves the connection at rest.** -/
theorem connStep_rest (o : LoopOpts η) (c : Conn η ω) (ev : ConnEvent η P υ ω) (hc : AtRest c)
    (hflows : Flows o c ev) : AtRest (connStep o c ev) := by
  cases ev with
  | recv env io res =>
    rcases hc with hfree | ⟨hon, -⟩
    · have hsame : onRecv o env io c res = (io, c, false) := by
        unfold onRecv
        rw [hfree]
      rw [connStep, hsame]
      exact .inl hfree
    · exact absurd (hon.recv.symm.trans hflows) (by decide)
  | send env io res =>
    rcases hc with hfree | ⟨hon, -⟩
    · have hsame : onSend o env io c res = (io, c) := if_pos hfree
      rw [connStep, hsame]
      exact .inl hfree
    · exact absurd (hon.send.symm.trans hflows) (by decide)
  | poll env io ok => exact onPoll_rest o env io hc ok hflows
  | fanOut env io => exact flushPending_rest o env io hc hflows

/-! ## Runs -/

theorem openedOr_rest {r : LoopIo P υ × Conn η ω × ℤ} (h : r.2.2 = 0 → AtRest r.2.1) :
    AtRest (openedOr r).2.1 := by
  unfold openedOr
  split_ifs with hrc
  · exact .inl (closeConn_free r.1 r.2.1)
  · exact h (not_not.mp hrc)

/-- A connection is accepted at rest. -/
theorem accepted_rest (o : LoopOpts η) (env : LoopEnv η P υ ω) (io : LoopIo P υ)
    (slot born clientFd : ℕ) : AtRest (accepted o env true io slot born clientFd) := by
  have hfailed : (-1 : ℤ) ≠ 0 := by decide
  unfold accepted openConn openTls
  simp only [if_true]
  split_ifs
  · exact openedOr_rest fun hrc => absurd hrc hfailed
  · exact openedOr_rest fun hrc =>
      pollHandshake_rest o env _ ⟨rfl, rfl, rfl, fun _ => rfl⟩ rfl hrc

/-- **What is sent is offered, and polled for.** In a run of a TLS connection in which no frame begins
behind a poll in flight, and none of those that `ws_try_send_pending` begins meets a failure, all that
is being sent was offered to `SSL_write`, and the poll in flight is the one it asked for. -/
theorem always_writeOffered (o : LoopOpts η) (env : LoopEnv η P υ ω) (io : LoopIo P υ)
    (slot born clientFd : ℕ) (evs : List (ConnEvent η P υ ω))
    (hflows : EachStep (connStep o) (Flows o) (accepted o env true io slot born clientFd) evs) :
    Always (connStep o) WriteOffered (accepted o env true io slot born clientFd) evs :=
  (EachStep.always (connStep_rest o) (accepted_rest o env io slot born clientFd) hflows).mono
    fun _ h => h.writeOffered

theorem always_writeOffered_piecewise :
    EachStep (connStep streamOpts) (Flows streamOpts)
        (accepted streamOpts (streamEnv [] []) true streamIo 0 0 5) piecewiseEvs ∧
      Always (connStep streamOpts) WriteOffered
        (accepted streamOpts (streamEnv [] []) true streamIo 0 0 5) piecewiseEvs := by
  have hflows : EachStep (connStep streamOpts) (Flows streamOpts)
      (accepted streamOpts (streamEnv [] []) true streamIo 0 0 5) piecewiseEvs := by
    refine ⟨fun _ => ⟨fun _ => ?_, ?_, ?_, ?_⟩, ?_,
      fun _ => ⟨?_, fun _ _ _ => by decide +kernel, ?_, ?_⟩, trivial⟩
    · intro ssl hssl http hhttp data hdata
      obtain rfl : http = streamOpts.newServe := (Option.some.inj hhttp).symm
      obtain rfl : ssl = ⟨[]⟩ := (Option.some.inj hssl).symm
      obtain rfl : data = handshake := (TlsRead.data.inj hdata).symm
      exact fun _ _ _ => by decide +kernel
    all_goals exact fun hst => absurd hst (by decide +kernel)
  exact ⟨hflows, always_writeOffered streamOpts _ streamIo 0 0 5 piecewiseEvs hflows⟩

/-! ## A frame behind a poll -/

/-- The process when a change is announced to the client of slot 0. -/
def announcedIo : LoopIo Unit Unit :=
  { streamIo with world := { streamWorld with
    hub := some (edgeWsHubBroadcastStateChanged (edgeWsHubSubscribe (edgeWsHubCreate 1) 0).1
      (fun _ => true) (bytes "lab") (bytes "lamp") (bytes "put") (some (bytes "1")) none).1 } }

/-- A client joins and is silent, and then a change is announced. -/
def parkedEvs : List (ConnEvent Unit Unit Unit Bytes) :=
  [.poll (streamEnv handshake [.wrote 200]) streamIo true,
    .fanOut (streamEnv [] [.wrote 200]) announcedIo]

/-- The frame is in the send buffer, was not offered to `SSL_write`, and waits for the client to send
something. -/
theorem not_always_writeOffered_parked :
    let start := accepted streamOpts (streamEnv [] []) true streamIo 0 0 5
    let c := runFrom (connStep streamOpts) start parkedEvs
    (c.state = .wsSend ∧ c.sendOff < c.sendLen ∧ c.log.offered = false ∧ c.pollPending = true ∧
        c.log.armed = false) ∧
      ¬ Always (connStep streamOpts) WriteOffered start parkedEvs := by
  intro start c
  obtain ⟨hparked, hssl⟩ : (c.state = .wsSend ∧ c.sendOff < c.sendLen ∧ c.log.offered = false ∧
      c.pollPending = true ∧ c.log.armed = false) ∧ c.ssl.isSome := by decide +kernel
  refine ⟨hparked, fun h => ?_⟩
  obtain ⟨hst, hlt, hno, -, -⟩ := hparked
  have hoffered : WriteOffered c := h.last
  exact absurd (hno.symm.trans (hoffered hssl (.inr hst) hlt).1) (by decide)

end Edgehost.Tls
