import Edgehost.Host.LoopRuns
import Edgehost.Host.TlsLoop

/-!
# The bytes of every send

A connection has one send buffer for HTTP responses, error responses, control frames and fan-out
frames. Its `log` keeps the buffer of every send as it was when the send began, and the bytes that
went out.

* `SendIntact` says that earlier sends went out whole, that the last one went out up to `send_off`,
  and that the buffer is still the one it began with.
* `always_sendIntact` is the result, for every order of completions and fan-outs on a connection,
  plain or TLS.
-/

namespace Edgehost.Tls

variable {η P υ ω : Type*}

/-- All of the buffer went out. -/
def Sending.Done (s : Sending) : Prop := s.wire = s.buf

/-- `CS_SEND` or `CS_WS_SEND`. -/
def InSend (st : ConnState) : Prop := st = .send ∨ st = .wsSend

/-- Nothing of the last send is left. -/
def ConnLog.Finished (l : ConnLog) : Prop := ∀ s ∈ l.last, s.Done

/-- The buffers of all sends, as they were when the sends began. -/
def ConnLog.bufs (l : ConnLog) : List Bytes := (l.past ++ l.last.toList).map Sending.buf

/-- **The bytes of every send.** Earlier sends went out whole and of the last one a prefix. While the
last one is going on, the buffer is what it began with and the bytes up to `send_off` are out; before
the next request, frame or mode of the connection it is finished, and when the connection was closed
it is, unless something failed. -/
structure SendIntact (c : Conn η ω) : Prop where
  past : ∀ s ∈ c.log.past, s.Done
  isPrefix : ∀ s ∈ c.log.last, s.wire <+: s.buf
  sending : InSend c.state → ∃ buf s, c.sendBuf = some buf ∧ c.log.last = some s ∧
    c.sendLen ≤ buf.length ∧ s.buf = buf.take c.sendLen ∧ s.wire = s.buf.take c.sendOff
  between : c.state = .tlsHs ∨ c.state = .recv ∨ c.state = .wsRecv → c.log.Finished
  closed : c.state = .free → c.log.broken = true ∨ c.log.Finished

/-! ## The invariant -/

/-- What else a connection keeps: a live one has a buffer, and only the send of a plain connection
is pending. -/
structure ConnInv (c : Conn η ω) : Prop extends SendIntact c where
  buf : c.state ≠ .free → c.sendBuf.isSome
  pending : c.sendPending = true → InSend c.state ∧ c.ssl = none

/-- The connection may be closed. -/
def CanClose (c : Conn η ω) : Prop := c.log.broken = true ∨ c.log.Finished

/-- A function took a connection from `c` to `c'`: the invariant holds, no begun send is forgotten,
and if the result is `bad` the connection may be closed. -/
structure Serves (c c' : Conn η ω) (bad : Prop) : Prop where
  inv : ConnInv c'
  bufs : c.log.bufs <+: c'.log.bufs
  fails : bad → CanClose c'

/-- Only flags that say nothing about sends differ. -/
structure SameSends (c c' : Conn η ω) : Prop where
  state : c'.state = c.state
  sendBuf : c'.sendBuf = c.sendBuf
  sendLen : c'.sendLen = c.sendLen
  sendOff : c'.sendOff = c.sendOff
  sendPending : c'.sendPending = true → c.sendPending = true
  plain : c.ssl = none → c'.ssl = none
  past : c'.log.past = c.log.past
  last : c'.log.last = c.log.last
  broken : c.log.broken = true → c'.log.broken = true

theorem SameSends.refl (c : Conn η ω) : SameSends c c :=
  ⟨rfl, rfl, rfl, rfl, id, id, rfl, rfl, id⟩

/-- What does not touch the sending keeps the invariant. -/
theorem SameSends.inv {c c' : Conn η ω} (h : SameSends c c') (hc : ConnInv c) : ConnInv c' where
  past := by rw [h.past]; exact hc.past
  isPrefix := by rw [h.last]; exact hc.isPrefix
  sending := by
    rw [h.state, h.sendBuf, h.last, h.sendLen, h.sendOff]
    exact hc.sending
  between := by
    rw [h.state, ConnLog.Finished, h.last]
    exact hc.between
  closed := by
    rw [h.state, ConnLog.Finished, h.last]
    exact fun hfree => (hc.closed hfree).imp h.broken id
  buf := by rw [h.state, h.sendBuf]; exact hc.buf
  pending := by
    rw [h.state]
    exact fun hpend => (hc.pending (h.sendPending hpend)).imp id h.plain

theorem SameSends.bufs {c c' : Conn η ω} (h : SameSends c c') : c'.log.bufs = c.log.bufs := by
  rw [ConnLog.bufs, h.past, h.last, ConnLog.bufs]

/-- Such a step begins no send, and forgets none. -/
theorem SameSends.serves {c c' : Conn η ω} {bad : Prop} (h : SameSends c c') (hc : ConnInv c)
    (hbad : bad → CanClose c') : Serves c c' bad :=
  ⟨h.inv hc, h.bufs ▸ List.prefix_rfl, hbad⟩

/-- One step after another. -/
theorem Serves.trans {c c₁ c' : Conn η ω} {bad bad' : Prop} (h : Serves c c₁ bad)
    (h' : Serves c₁ c' bad') : Serves c c' bad' :=
  ⟨h'.inv, h.bufs.trans h'.bufs, h'.fails⟩

theorem Serves.imp {c c' : Conn η ω} {bad bad' : Prop} (h : Serves c c' bad) (himp : bad' → bad) :
    Serves c c' bad' :=
  ⟨h.inv, h.bufs, h.fails ∘ himp⟩

/-! ## Submitting and closing -/

theorem broke_same (c : Conn η ω) : SameSends c c.broke :=
  ⟨rfl, rfl, rfl, rfl, id, id, rfl, rfl, fun _ => rfl⟩

/-- A poll touches no buffer, and its failure is noted. -/
theorem submitPoll_same (o : LoopOpts η) (io : LoopIo P υ) (c : Conn η ω) (w : Bool) :
    SameSends c (submitPoll o io c w).2.1 ∧
      ((submitPoll o io c w).2.2 ≠ 0 → (submitPoll o io c w).2.1.log.broken = true) := by
  unfold submitPoll
  split_ifs
  · exact ⟨.refl c, fun h => absurd rfl h⟩
  · cases getSqe o io ⟨.poll w, c.slot, c.born⟩ with
    | none => exact ⟨broke_same c, fun _ => rfl⟩
    | some io' => exact ⟨⟨rfl, rfl, rfl, rfl, id, id, rfl, rfl, id⟩, fun h => absurd rfl h⟩

/-- Nor does a receive. -/
theorem submitRecv_same (o : LoopOpts η) (io : LoopIo P υ) (c : Conn η ω) :
    SameSends c (submitRecv o io c).2.1 ∧
      ((submitRecv o io c).2.2 ≠ 0 → (submitRecv o io c).2.1.log.broken = true) := by
  unfold submitRecv
  split_ifs
  · exact ⟨.refl c, fun h => absurd rfl h⟩
  · exact submitPoll_same o io c false
  · cases getSqe o io ⟨.recv, c.slot, c.born⟩ with
    | none => exact ⟨broke_same c, fun _ => rfl⟩
    | some io' => exact ⟨⟨rfl, rfl, rfl, rfl, id, id, rfl, rfl, id⟩, fun h => absurd rfl h⟩

theorem submitPoll_serves (o : LoopOpts η) (io : LoopIo P υ) {c : Conn η ω} (hc : ConnInv c)
    (w : Bool) : Serves c (submitPoll o io c w).2.1 ((submitPoll o io c w).2.2 ≠ 0) :=
  have h := submitPoll_same o io c w
  h.1.serves hc fun hbad => .inl (h.2 hbad)

theorem submitRecv_serves (o : LoopOpts η) (io : LoopIo P υ) {c : Conn η ω} (hc : ConnInv c) :
    Serves c (submitRecv o io c).2.1 ((submitRecv o io c).2.2 ≠ 0) :=
  have h := submitRecv_same o io c
  h.1.serves hc fun hbad => .inl (h.2 hbad)

/-- A connection that may be closed keeps its history when it is. -/
theorem closeConn_serves (io : LoopIo P υ) {c : Conn η ω} (hc : ConnInv c) (hclose : CanClose c) :
    Serves c (closeConn io c).2 False := by
  unfold closeConn
  split_ifs with hfree
  · exact (SameSends.refl c).serves hc False.elim
  · exact
    { inv :=
        { past := hc.past
          isPrefix := hc.isPrefix
          sending := fun h => absurd h (by simp [InSend])
          between := fun h => absurd h (by simp)
          closed := fun _ => hclose
          buf := fun h => absurd rfl h
          pending := fun h => absurd h (by simp) }
      bufs := List.prefix_rfl
      fails := False.elim }

/-- A step that fails ends in a close. -/
theorem closeOnError_serves {c : Conn η ω} {r : LoopIo P υ × Conn η ω × ℤ}
    (h : Serves c r.2.1 (r.2.2 ≠ 0)) : Serves c (closeOnError r).2 False := by
  unfold closeOnError
  split_ifs with hbad
  · exact h.trans (closeConn_serves r.1 h.inv (h.fails hbad))
  · exact h.imp False.elim

/-! ## Sends -/

/-- A submission of sends that keeps the invariant. -/
def Drives (send : LoopIo P υ → Conn η ω → LoopIo P υ × Conn η ω × ℤ) : Prop :=
  ∀ io c, ConnInv c → InSend c.state → Serves c (send io c).2.1 ((send io c).2.2 ≠ 0)

/-- Nothing is being sent, so a send may begin. -/
structure Ready (c : Conn η ω) : Prop where
  past : ∀ s ∈ c.log.past, s.Done
  finished : c.log.Finished
  buf : c.sendBuf.isSome
  notPending : c.sendPending = false

/-- A connection that waits for input may begin to send. -/
theorem ConnInv.ready {c : Conn η ω} (hc : ConnInv c)
    (hst : c.state = .tlsHs ∨ c.state = .recv ∨ c.state = .wsRecv) : Ready c where
  past := hc.past
  finished := hc.between hst
  buf := hc.buf (by rcases hst with h | h | h <;> simp [h])
  notPending := by
    by_contra hpend
    rcases (hc.pending (by simpa using hpend)).1 with h' | h' <;> rcases hst with h | h | h <;>
      exact absurd (h.symm.trans h') (by simp)

/-- A connection that is ready, in a state between sends. -/
theorem Ready.inv {c : Conn η ω} (h : Ready c)
    (hst : c.state = .tlsHs ∨ c.state = .recv ∨ c.state = .wsRecv) : ConnInv c where
  past := h.past
  isPrefix s hs := by
    rw [show s.wire = s.buf from h.finished s hs]
  sending hsend := by
    rcases hsend with h' | h' <;> rcases hst with h | h | h <;>
      exact absurd (h.symm.trans h') (by simp)
  between _ := h.finished
  closed _ := .inr h.finished
  buf _ := h.buf
  pending hpend := absurd hpend (by simp [h.notPending])

section

variable {send : LoopIo P υ → Conn η ω → LoopIo P υ × Conn η ω × ℤ}

/-- **A send begins** with the bytes in the buffer, of which none is out. -/
theorem beginSendBuf_serves (hsend : Drives send) (io : LoopIo P υ) {c : Conn η ω} (h : Ready c)
    {buf : Bytes} (hbuf : c.sendBuf = some buf) {len : ℕ} (hlen : len ≤ buf.length) {st : ConnState}
    (hst : InSend st) :
    Serves c (beginSendBuf send io c len st).2.1 ((beginSendBuf send io c len st).2.2 ≠ 0) := by
  have hall : ∀ s ∈ c.log.past ++ c.log.last.toList, s.Done := by
    intro s hs
    rcases List.mem_append.mp hs with hs | hs
    · exact h.past s hs
    · exact h.finished s (Option.mem_toList.mp hs)
  have hnot : ∀ {q : ConnState}, st = q → q = .send ∨ q = .wsSend := fun hq => hq ▸ hst
  let c₁ : Conn η ω := { c with
    sendLen := len
    sendOff := 0
    state := st
    log := { c.log with
      past := c.log.past ++ c.log.last.toList
      last := some ⟨(c.sendBuf.getD []).take len, []⟩
      offered := false } }
  have hinv : ConnInv c₁ :=
    { past := hall
      isPrefix := by
        intro s hs
        obtain rfl := Option.some.inj hs
        exact List.nil_prefix
      sending := fun _ => ⟨buf, _, hbuf, rfl, hlen, by rw [hbuf]; rfl, rfl⟩
      between := by
        rintro (hq | hq | hq) <;> exact absurd (hnot hq) (by simp)
      closed := fun hq => absurd (hnot hq) (by simp)
      buf := fun _ => h.buf
      pending := fun hpend => absurd (h.notPending.symm.trans hpend) (by simp) }
  have hserves := hsend io c₁ hinv hst
  refine ⟨hserves.inv, List.IsPrefix.trans ?_ hserves.bufs, hserves.fails⟩
  rw [ConnLog.bufs, ConnLog.bufs, @List.map_append _ _ _ c₁.log.past]
  exact List.prefix_append _ _

/-- A buffer that is there takes the bytes. -/
theorem writeBuf_sendBuf {c : Conn η ω} (h : c.sendBuf.isSome) (bs : Bytes) :
    ∃ buf, (c.writeBuf bs).sendBuf = some buf ∧ bs.length ≤ buf.length := by
  obtain ⟨old, hold⟩ := Option.isSome_iff_exists.mp h
  refine ⟨bs ++ old.drop bs.length, ?_, ?_⟩
  · rw [Conn.writeBuf, hold]
    rfl
  · rw [List.length_append]
    exact Nat.le_add_right _ _

/-- Writing to the buffer between sends. -/
theorem Ready.writeBuf {c : Conn η ω} (h : Ready c) (bs : Bytes) : Ready (c.writeBuf bs) :=
  ⟨h.past, h.finished, by rw [Conn.writeBuf, Option.isSome_map]; exact h.buf, h.notPending⟩

/-- A frame is written to the buffer of a connection that is ready, and its send begins. -/
theorem sendFrame_serves (hsend : Drives send) (io : LoopIo P υ) {c : Conn η ω} (h : Ready c)
    (frame : Bytes) :
    Serves c (sendFrame send io (c.writeBuf frame) frame.length).2.1
      ((sendFrame send io (c.writeBuf frame) frame.length).2.2 < 0) := by
  obtain ⟨buf, hbuf, hlen⟩ := writeBuf_sendBuf h.buf frame
  have hserves :=
    @beginSendBuf_serves _ _ _ _ _ hsend io _ (h.writeBuf frame) _ hbuf _ hlen .wsSend (.inr rfl)
  refine ⟨hserves.inv, hserves.bufs, fun hbad => hserves.fails fun hzero => ?_⟩
  simp only [sendFrame] at hbad
  rw [if_pos hzero] at hbad
  exact absurd hbad (by decide)

theorem sendFrame_ne_zero (io : LoopIo P υ) (c : Conn η ω) (len : ℕ) :
    (sendFrame send io c len).2.2 ≠ 0 := by
  simp only [sendFrame]
  split_ifs <;> decide

/-- Another state of the library, and bytes in the buffer, between sends. -/
theorem Ready.setWs {c : Conn η ω} (h : Ready c) (ws : Option ω) : Ready { c with ws } :=
  ⟨h.past, h.finished, h.buf, h.notPending⟩

/-- What the library has queued goes out as one frame, or the connection stays as it is. -/
theorem wsFlushOutput_serves (hsend : Drives send) (o : LoopOpts η) (env : LoopEnv η P υ ω)
    (io : LoopIo P υ) {c : Conn η ω} (h : Ready c) (hst : c.state = .wsRecv) :
    Serves c (wsFlushOutput send o env io c).2.1 ((wsFlushOutput send o env io c).2.2 < 0) ∧
      ((wsFlushOutput send o env io c).2.2 = 0 →
        Ready (wsFlushOutput send o env io c).2.1 ∧
          (wsFlushOutput send o env io c).2.1.state = .wsRecv) := by
  have hinv : ∀ {c : Conn η ω}, Ready c → c.state = .wsRecv → ConnInv c := fun h hst =>
    h.inv (.inr (.inr hst))
  unfold wsFlushOutput
  cases c.ws with
  | none => exact ⟨⟨hinv h hst, List.prefix_rfl, fun h => absurd h (lt_irrefl _)⟩, fun _ => ⟨h, hst⟩⟩
  | some ws =>
    have hidle : ¬ (c.sendPending = true ∨ c.state = .wsSend) := by simp [h.notPending, hst]
    simp only [if_neg hidle]
    let out := env.ws.getOutput ws o.sendCap
    have hready := (h.setWs (some out.2)).writeBuf out.1
    have hw : (Conn.writeBuf { c with ws := some out.2 } out.1).state = .wsRecv := hst
    split_ifs
    · exact ⟨⟨hinv hready hw, List.prefix_rfl, fun h => absurd h (lt_irrefl _)⟩,
        fun _ => ⟨hready, hw⟩⟩
    · exact ⟨⟨hinv hready hw, List.prefix_rfl, fun _ => .inr hready.finished⟩,
        fun h => absurd (show (-1 : ℤ) = 0 from h) (by decide)⟩
    · have hserves := sendFrame_serves hsend io (h.setWs (some out.2)) out.1
      exact ⟨⟨hserves.inv, hserves.bufs, hserves.fails⟩,
        fun hzero => absurd hzero (sendFrame_ne_zero _ _ _)⟩

/-- First what is queued, then one message of the hub. -/
theorem wsTrySendPending_serves (hsend : Drives send) (o : LoopOpts η) (env : LoopEnv η P υ ω)
    (io : LoopIo P υ) {c : Conn η ω} (h : Ready c) (hst : c.state = .wsRecv) :
    Serves c (wsTrySendPending send o env io c).2.1 ((wsTrySendPending send o env io c).2.2 < 0) := by
  obtain ⟨hflush, hzero⟩ := wsFlushOutput_serves hsend o env io h hst
  have htried := wsTrySendPending_tried send o env io c
  generalize wsTrySendPending send o env io c = r at htried ⊢
  have hready : ∀ {io₁ : LoopIo P υ} {c₁ : Conn η ω}, wsFlushOutput send o env io c = (io₁, c₁, 0) →
      Ready c₁ ∧ c₁.state = .wsRecv ∧ Serves c c₁ False := by
    intro io₁ c₁ heq
    rw [heq] at hflush hzero
    obtain ⟨hready, hst₁⟩ := hzero rfl
    exact ⟨hready, hst₁, hflush.imp fun h => h.elim⟩
  cases htried with
  | skipped hskip => exact ⟨h.inv (.inr (.inr hst)), List.prefix_rfl, fun h => absurd h (lt_irrefl _)⟩
  | flushed hopen hrc => exact hflush
  | unsent hopen heq rc =>
    obtain ⟨hready, hst₁, hserves⟩ := hready heq
    exact hserves.trans ⟨hready.inv (.inr (.inr hst₁)), List.prefix_rfl, fun _ => .inr hready.finished⟩
  | @cut io₁ c₁ hopen heq ws =>
    obtain ⟨hready, hst₁, hserves⟩ := hready heq
    let out := env.ws.getOutput ws o.sendCap
    have hw := (hready.setWs (some out.2)).writeBuf out.1
    exact hserves.trans ⟨hw.inv (.inr (.inr hst₁)), List.prefix_rfl, fun _ => .inr hw.finished⟩
  | @framed io₁ c₁ hopen heq ws hone hws hfits =>
    obtain ⟨hready, hst₁, hserves⟩ := hready heq
    let out := env.ws.getOutput ws o.sendCap
    have hsent := sendFrame_serves hsend (takePending io₁ c₁.slot).1 (hready.setWs (some out.2)) out.1
    exact hserves.trans ⟨hsent.inv, hsent.bufs, hsent.fails⟩

/-- The first receive and the first fan-out of a WebSocket connection. -/
theorem firstFanOut_serves (hsend : Drives send) (o : LoopOpts η) (env : LoopEnv η P υ ω)
    (io : LoopIo P υ) {c : Conn η ω} (h : Ready c) (hst : c.state = .wsRecv) :
    let r := submitRecv o io c
    Serves c r.2.1 (r.2.2 ≠ 0) ∧ Serves c (wsTrySendPending send o env r.1 r.2.1).2.1 False := by
  intro r
  have hsame := (submitRecv_same o io c).1
  have hserves := submitRecv_serves o io (h.inv (.inr (.inr hst)))
  have hst' : r.2.1.state = .wsRecv := hsame.state.trans hst
  have htry := wsTrySendPending_serves hsend o env r.1 (hserves.inv.ready (.inr (.inr hst'))) hst'
  exact ⟨hserves, hserves.trans (htry.imp False.elim)⟩

/-- The stream begins when its handshake is out. -/
theorem promoteToWs_serves (hsend : Drives send) (o : LoopOpts η) (env : LoopEnv η P υ ω)
    (io : LoopIo P υ) {c : Conn η ω} (h : Ready c) (hc : ConnInv c) :
    Serves c (promoteToWs send o env io c).2.1 ((promoteToWs send o env io c).2.2 ≠ 0) := by
  have hno : ∀ bad : Prop, Serves c ({ c with ws := none } : Conn η ω) bad :=
    fun bad => ⟨⟨⟨hc.past, hc.isPrefix, hc.sending, hc.between, hc.closed⟩, hc.buf, hc.pending⟩,
      List.prefix_rfl, fun _ => .inr h.finished⟩
  unfold promoteToWs
  cases env.ws.create with
  | none => exact hno _
  | some ws =>
    cases io.world.hub with
    | none => exact hno _
    | some hub =>
      simp only
      by_cases hsub : (edgeWsHubSubscribe hub c.slot).2 = 0
      case neg =>
        rw [if_pos hsub]
        exact hno _
      rw [if_neg (not_not.mpr hsub)]
      have hready : Ready ({ c with ws := some ws, keepWs := false, state := .wsRecv, http := none } :
        Conn η ω) := ⟨h.past, h.finished, h.buf, h.notPending⟩
      obtain ⟨hrecv, hfan⟩ := firstFanOut_serves hsend o env
        { io with world := { io.world with hub := some (edgeWsHubSubscribe hub c.slot).1 } } hready rfl
      split_ifs with hrc
      · exact ⟨hrecv.inv, hrecv.bufs, fun _ => hrecv.fails hrc⟩
      · exact ⟨hfan.inv, hfan.bufs, fun h => absurd rfl h⟩

/-- What follows a send that is out: a stream, the next frame, or the end. -/
theorem handleSendComplete_serves (hsend : Drives send) (o : LoopOpts η) (env : LoopEnv η P υ ω)
    (io : LoopIo P υ) {c : Conn η ω} (h : Ready c) (hc : ConnInv c) :
    Serves c (handleSendComplete send o env io c).2.1
      ((handleSendComplete send o env io c).2.2 ≠ 0) := by
  unfold handleSendComplete
  split_ifs
  · exact promoteToWs_serves hsend o env io h hc
  · have hready : Ready ({ c with state := .wsRecv } : Conn η ω) :=
      ⟨h.past, h.finished, h.buf, h.notPending⟩
    have htry := wsTrySendPending_serves hsend o env io hready rfl
    generalize wsTrySendPending send o env io ({ c with state := .wsRecv } : Conn η ω) = r at htry
    simp only
    split_ifs
    · have hrecv := submitRecv_serves o r.1 htry.inv
      exact ⟨hrecv.inv, htry.bufs.trans hrecv.bufs, hrecv.fails⟩
    · exact ⟨htry.inv, htry.bufs, fun h => absurd rfl h⟩
  · exact (closeConn_serves io hc (.inr h.finished)).imp fun h => absurd rfl h

end

/-! ## The send that is going on -/

/-- The last send after some of it went out. -/
theorem advance_inv {c : Conn η ω} (hc : ConnInv c) (hst : InSend c.state) (n : ℕ) :
    ConnInv (c.advance n) ∧ (c.advance n).log.bufs = c.log.bufs := by
  obtain ⟨buf, s, hbuf, hlast, hlen, hsbuf, hwire⟩ := hc.sending hst
  have hlast' : (c.advance n).log.last
      = some { s with wire := s.buf.take (c.sendOff + n) } := by
    rw [Conn.advance, hbuf, hlast, Option.map_some, hwire, Option.getD_some, ← hsbuf,
      List.take_add]
  have hfree : ∀ {q : ConnState}, c.state = q → q = .send ∨ q = .wsSend := fun hq => hq ▸ hst
  refine ⟨⟨⟨hc.past, ?_, fun _ => ⟨buf, _, hbuf, hlast', hlen, hsbuf, rfl⟩, ?_, ?_⟩, hc.buf,
    hc.pending⟩, ?_⟩
  · intro t ht
    rw [hlast'] at ht
    obtain rfl := Option.some.inj ht
    exact List.take_prefix _ _
  · rintro (hq | hq | hq) <;> exact absurd (hfree hq) (by simp)
  · exact fun hq => absurd (hfree hq) (by simp)
  · show (c.log.past ++ (c.advance n).log.last.toList).map Sending.buf = _
    rw [hlast', ConnLog.bufs, hlast, List.map_append, List.map_append]
    rfl

/-- A send that has reached the end of the buffer is finished. -/
theorem ConnInv.finished {c : Conn η ω} (hc : ConnInv c) (hst : InSend c.state)
    (hoff : c.sendOff ≥ c.sendLen) : c.log.Finished := by
  obtain ⟨buf, s, -, hlast, -, hsbuf, hwire⟩ := hc.sending hst
  intro t ht
  rw [hlast] at ht
  obtain rfl := Option.some.inj ht
  rw [Sending.Done, hwire, List.take_of_length_le]
  rw [hsbuf, List.length_take]
  omega

/-- When all is out, the buffer may be used again. -/
theorem ConnInv.ready_of_sent {c : Conn η ω} (hc : ConnInv c) (hst : InSend c.state)
    (hoff : c.sendOff ≥ c.sendLen) (hpend : c.sendPending = false) : Ready c where
  past := hc.past
  finished := hc.finished hst hoff
  buf := hc.buf (by rcases hst with h | h <;> simp [h])
  notPending := hpend

/-- What drives the writes of a TLS connection drives its sends. -/
theorem submitSendBy_drives {o : LoopOpts η}
    {drive : LoopIo P υ → Conn η ω → LoopIo P υ × Conn η ω × ℤ}
    (hdrive : ∀ io c, ConnInv c → InSend c.state → c.sendPending = false →
      Serves c (drive io c).2.1 ((drive io c).2.2 ≠ 0)) : Drives (submitSendBy o drive) := by
  intro io c hc hst
  unfold submitSendBy
  split_ifs with hidle htls
  · exact (SameSends.refl c).serves hc fun h => absurd rfl h
  · exact hdrive io c hc hst (by simpa using (not_or.mp hidle).1)
  · cases getSqe o io ⟨.send, c.slot, c.born⟩ with
    | none => exact (broke_same c).serves hc fun _ => .inl rfl
    | some io' =>
      exact ⟨⟨⟨hc.past, hc.isPrefix, hc.sending, hc.between, hc.closed⟩, hc.buf,
        fun _ => ⟨hst, by simpa using htls⟩⟩, List.prefix_rfl, fun h => absurd rfl h⟩

/-- **Driving a TLS write.** By induction on the answers of `SSL_write`: each chunk advances the send,
and a finished send hands over to whatever comes next, which drives the rest of the answers. -/
theorem tlsDriveWrite_serves (o : LoopOpts η) (env : LoopEnv η P υ ω) (answers : List WriteAnswer) :
    ∀ (io : LoopIo P υ) (c : Conn η ω), ConnInv c → InSend c.state → c.sendPending = false →
      Serves c (tlsDriveWrite o env answers io c).2.1
        ((tlsDriveWrite o env answers io c).2.2 ≠ 0) := by
  induction answers with
  | nil =>
    intro io c hc hst hpend
    rw [tlsDriveWrite]
    split_ifs
    · exact (SameSends.refl c).serves hc fun h => absurd rfl h
    · exact (broke_same c).serves hc fun _ => .inl rfl
  | cons answer answers ih =>
    intro io c hc hst hpend
    rw [tlsDriveWrite]
    split_ifs
    · exact (SameSends.refl c).serves hc fun h => absurd rfl h
    have hoffered : SameSends c { c with log := { c.log with offered := true } } :=
      ⟨rfl, rfl, rfl, rfl, id, id, rfl, rfl, id⟩
    cases answer with
    | failed =>
      exact (hoffered.serves hc False.elim).trans
        ((broke_same _).serves (hoffered.inv hc) fun _ => .inl rfl)
    | want write =>
      have hwanted : SameSends c
          { c with log := { c.log with offered := true, wanted := write } } :=
        ⟨rfl, rfl, rfl, rfl, id, id, rfl, rfl, id⟩
      exact (hwanted.serves hc False.elim).trans
        (submitPoll_serves o io (hwanted.inv hc) write)
    | wrote n =>
      simp only
      generalize min (n + 1) (c.sendLen - c.sendOff) = k
      generalize (io.count fun m => { m with bytesOut := m.bytesOut + UInt64.ofNat k }) = io₁
      obtain ⟨hadv, hbufs⟩ := advance_inv (hoffered.inv hc) hst k
      have hfirst : Serves c (Conn.advance { c with log := { c.log with offered := true } } k)
          False := ⟨hadv, hbufs ▸ List.prefix_rfl, False.elim⟩
      split_ifs with hend
      · exact hfirst.trans (handleSendComplete_serves (submitSendBy_drives ih) o env io₁
          (hadv.ready_of_sent hst hend hpend) hadv)
      · exact hfirst.trans (ih io₁ _ hadv hst hpend)

theorem submitSend_drives (o : LoopOpts η) (env : LoopEnv η P υ ω) : Drives (submitSend o env) :=
  fun io c => submitSendBy_drives (tlsDriveWrite_serves o env (env.ssl c.slot).writes) io c

/-! ## Input -/

/-- Frames of the client are answered when no frame is under way. -/
theorem handleWsRecv_serves (o : LoopOpts η) (env : LoopEnv η P υ ω) (io : LoopIo P υ)
    {c : Conn η ω} (hc : ConnInv c) (hst : c.state = .wsRecv) (data : Bytes) :
    Serves c (handleWsRecv o env io c data).2.1 ((handleWsRecv o env io c data).2.2 ≠ 0) := by
  have hready := hc.ready (.inr (.inr hst))
  unfold handleWsRecv
  cases c.ws with
  | none => exact (SameSends.refl c).serves hc fun _ => .inr hready.finished
  | some ws =>
    simp only
    generalize (io.count fun m => { m with bytesIn := m.bytesIn + UInt64.ofNat data.length }) = io₁
    generalize wsEvents env.toLoopEnv (env.ws.feedInput ws data).1 (env.ws.feedInput ws data).2 = r
    have hready' := hready.setWs (some r.1)
    have hsame : Serves c ({ c with ws := some r.1 } : Conn η ω) True :=
      ⟨hready'.inv (.inr (.inr hst)), List.prefix_rfl, fun _ => .inr hready.finished⟩
    have hflush := (wsFlushOutput_serves (submitSend_drives o env) o env io₁ hready' hst).1
    by_cases hrc : r.2 = 0
    case neg =>
      rw [if_pos hrc]
      exact hsame.imp fun _ => trivial
    rw [if_neg (not_not.mpr hrc), if_pos ⟨hst, by simp [hready.notPending]⟩]
    split_ifs with hbad
    · exact hsame.trans ⟨hflush.inv, hflush.bufs, fun _ => hflush.fails hbad⟩
    · exact hsame.trans ⟨hflush.inv, hflush.bufs, fun h => absurd rfl h⟩

/-- The answer to what is no request. -/
theorem beginBadRequestPlain_serves (o : LoopOpts η) (env : LoopEnv η P υ ω) (io : LoopIo P υ)
    {c : Conn η ω} (hc : ConnInv c) (hst : c.state = .recv) :
    Serves c (beginBadRequestPlain o env io c).2.1 ((beginBadRequestPlain o env io c).2.2 ≠ 0) := by
  have hready := hc.ready (.inr (.inl hst))
  unfold beginBadRequestPlain
  split_ifs
  · exact (SameSends.refl c).serves hc fun _ => .inr hready.finished
  · obtain ⟨buf, hbuf, hlen⟩ := writeBuf_sendBuf hready.buf badRequest
    have h := beginSendBuf_serves (submitSend_drives o env)
      (io.count fun m => { m with requests := m.requests + 1, responses4xx := m.responses4xx + 1 })
      (hready.writeBuf badRequest) hbuf hlen (.inl rfl)
    exact ⟨h.inv, h.bufs, h.fails⟩

/-- **Bytes of a request** are answered, refused, or wait for more. -/
theorem handleHttpBytes_serves (o : LoopOpts η) (env : LoopEnv η P υ ω) (io : LoopIo P υ)
    {c : Conn η ω} (hc : ConnInv c) (hst : c.state = .recv) (data : Bytes) :
    Serves c (handleHttpBytes o env io c data).2.1 ((handleHttpBytes o env io c data).2.2.1 ≠ 0) := by
  have hready := hc.ready (.inr (.inl hst))
  unfold handleHttpBytes
  by_cases hdata : data = []
  · rw [if_pos hdata]
    have hbad := beginBadRequestPlain_serves o env io hc hst
    exact ⟨hbad.inv, hbad.bufs, fun h => hbad.fails fun hzero => h (if_neg (not_not.mpr hzero))⟩
  rw [if_neg hdata]
  cases c.http with
  | none => exact (SameSends.refl c).serves hc fun _ => .inr hready.finished
  | some http =>
    simp only
    generalize edgeHttp1ServeFeed env.serve http io.world data o.sendCap = served
    have hready₁ : Ready ({ c with http := some served.serve } : Conn η ω) :=
      ⟨hready.past, hready.finished, hready.buf, hready.notPending⟩
    have hwritten := hready₁.writeBuf served.out
    have hsame : Serves c (Conn.writeBuf { c with http := some served.serve } served.out) True :=
      ⟨hwritten.inv (.inr (.inl hst)), List.prefix_rfl, fun _ => .inr hready.finished⟩
    obtain ⟨buf, hbuf, hlen⟩ := writeBuf_sendBuf hready₁.buf served.out
    have hkeep : Ready ({ Conn.writeBuf { c with http := some served.serve } served.out with
        keepWs := served.serve.wsUpgrade } : Conn η ω) :=
      ⟨hwritten.past, hwritten.finished, hwritten.buf, hwritten.notPending⟩
    have hbegin := beginSendBuf_serves (submitSend_drives o env) { io with world := served.world }
      hkeep hbuf hlen (.inl rfl)
    by_cases hneg : served.ret < 0
    · rw [if_pos hneg]
      exact hsame.imp fun _ => trivial
    rw [if_neg hneg]
    by_cases hmore : served.ret = 0
    · rw [if_pos hmore]
      exact hsame.trans (submitRecv_serves o { io with world := served.world } hsame.inv)
    rw [if_neg hmore]
    split_ifs with hrc
    · exact ⟨hbegin.inv, hbegin.bufs, fun _ => hbegin.fails hrc⟩
    · exact ⟨hbegin.inv, hbegin.bufs, fun h => absurd rfl h⟩

/-- A read leaves the sends as they are. -/
theorem setSsl_same {c : Conn η ω} {ssl : Ssl} (hssl : c.ssl = some ssl) (ssl' : Ssl) :
    SameSends c { c with ssl := some ssl' } :=
  ⟨rfl, rfl, rfl, rfl, id, fun h => absurd (h.symm.trans hssl) (by simp), rfl, rfl, id⟩

/-- The handshake begins no send. -/
theorem pollHandshake_serves (o : LoopOpts η) (env : LoopEnv η P υ ω) (io : LoopIo P υ)
    {c : Conn η ω} (hc : ConnInv c) (hst : c.state = .tlsHs) :
    Serves c (pollHandshake o env io c).2.1 ((pollHandshake o env io c).2.2 ≠ 0) := by
  have hready := hc.ready (.inl hst)
  unfold pollHandshake
  cases (env.ssl c.slot).handshake with
  | done =>
    have hrecv : Ready ({ c with state := .recv } : Conn η ω) :=
      ⟨hready.past, hready.finished, hready.buf, hready.notPending⟩
    have h := submitRecv_serves o io (hrecv.inv (.inr (.inl rfl)))
    exact ⟨h.inv, h.bufs, h.fails⟩
  | want write => exact submitPoll_serves o io hc write
  | failed => exact (broke_same c).serves hc fun _ => .inl rfl

/-- A request that comes through the `SSL`. -/
theorem pollHttp_serves (o : LoopOpts η) (env : LoopEnv η P υ ω) (io : LoopIo P υ)
    {c : Conn η ω} (hc : ConnInv c) (hst : c.state = .recv) {ssl : Ssl} (hssl : c.ssl = some ssl) :
    Serves c (pollHttp o env io c ssl).2.1 ((pollHttp o env io c ssl).2.2.1 ≠ 0) := by
  unfold pollHttp
  simp only
  generalize edgeTlsRead ssl RECV_BUF (env.ssl c.slot).record = read
  have hread : Serves c ({ c with ssl := some read.1 } : Conn η ω) False :=
    (setSsl_same hssl _).serves hc False.elim
  cases read.2 with
  | data data => exact hread.trans (handleHttpBytes_serves o env io hread.inv hst data)
  | want write => exact hread.trans (submitPoll_serves o io hread.inv write)
  | eof => exact hread.trans (beginBadRequestPlain_serves o env io hread.inv hst)
  | failed => exact hread.trans ((broke_same _).serves hread.inv fun _ => .inl rfl)

/-- Behind a frame the connection breaks, goes on receiving or waits. -/
theorem afterFrame_serves (o : LoopOpts η) {c : Conn η ω} {r : LoopIo P υ × Conn η ω × ℤ}
    (hws : Serves c r.2.1 (r.2.2 ≠ 0)) (again : Prop) [Decidable again] :
    let out : LoopIo P υ × Conn η ω × ℤ :=
      if r.2.2 ≠ 0 then (r.1, r.2.1, -1)
      else if again then submitRecv o r.1 r.2.1
      else (r.1, r.2.1, 0)
    Serves c out.2.1 (out.2.2 ≠ 0) := by
  dsimp only
  split_ifs with hrc
  · exact ⟨hws.inv, hws.bufs, fun _ => hws.fails hrc⟩
  · exact hws.trans (submitRecv_serves o _ hws.inv)
  · exact ⟨hws.inv, hws.bufs, fun h => absurd rfl h⟩

theorem pollWsData_serves (o : LoopOpts η) (env : LoopEnv η P υ ω) (io : LoopIo P υ)
    {c : Conn η ω} (hc : ConnInv c) (hst : c.state = .wsRecv) (data : Bytes) :
    Serves c (pollWsData o env io c data).2.1 ((pollWsData o env io c data).2.2 ≠ 0) :=
  afterFrame_serves o (handleWsRecv_serves o env io hc hst data) _

/-- Frames that come through the `SSL`. -/
theorem pollWs_serves (o : LoopOpts η) (env : LoopEnv η P υ ω) (io : LoopIo P υ)
    {c : Conn η ω} (hc : ConnInv c) (hst : c.state = .wsRecv) {ssl : Ssl} (hssl : c.ssl = some ssl) :
    Serves c (pollWs o env io c ssl).2.1 ((pollWs o env io c ssl).2.2 ≠ 0) := by
  have hready := hc.ready (.inr (.inr hst))
  unfold pollWs
  simp only
  generalize edgeTlsRead ssl RECV_BUF (env.ssl c.slot).record = read
  have hread : Serves c ({ c with ssl := some read.1 } : Conn η ω) True :=
    (setSsl_same hssl _).serves hc fun _ => .inr hready.finished
  cases read.2 with
  | data data => exact hread.trans (pollWsData_serves o env io hread.inv hst data)
  | want write => exact hread.trans (submitPoll_serves o io hread.inv write)
  | eof => exact hread.imp fun _ => trivial
  | failed => exact hread.trans ((broke_same _).serves hread.inv fun _ => .inl rfl)

/-- A poll is handled by the state of the connection. -/
theorem handleTlsPoll_serves (o : LoopOpts η) (env : LoopEnv η P υ ω) (io : LoopIo P υ)
    {c : Conn η ω} (hc : ConnInv c) {ssl : Ssl} (hssl : c.ssl = some ssl) :
    Serves c (handleTlsPoll o env io c ssl).2.1 ((handleTlsPoll o env io c ssl).2.2.1 ≠ 0) := by
  have hpend : c.sendPending = false := by
    by_contra hpend
    exact absurd (((hc.pending (by simpa using hpend)).2).symm.trans hssl) (by simp)
  unfold handleTlsPoll
  split
  case h_1 => exact (SameSends.refl c).serves hc fun h => absurd rfl h
  case h_2 hst => exact pollHandshake_serves o env io hc hst
  case h_3 hst => exact pollHttp_serves o env io hc hst hssl
  case h_4 hst => exact pollWs_serves o env io hc hst hssl
  case h_5 hst => exact tlsDriveWrite_serves o env _ io c hc (.inl hst) hpend
  case h_6 hst => exact tlsDriveWrite_serves o env _ io c hc (.inr hst) hpend

/-! ## Events -/

theorem recvWs_serves (o : LoopOpts η) (env : LoopEnv η P υ ω) (io : LoopIo P υ)
    {c : Conn η ω} (hc : ConnInv c) (hst : c.state = .wsRecv) (data : Bytes) :
    Serves c (recvWs o env io c data).2.1 ((recvWs o env io c data).2.2 ≠ 0) :=
  afterFrame_serves o (handleWsRecv_serves o env io hc hst data) _

/-- A completion takes the mark of its operation away. -/
theorem clearRecv_same (c : Conn η ω) : SameSends c { c with recvPending := false } :=
  ⟨rfl, rfl, rfl, rfl, id, id, rfl, rfl, id⟩

theorem clearPoll_same (c : Conn η ω) : SameSends c { c with pollPending := false } :=
  ⟨rfl, rfl, rfl, rfl, id, id, rfl, rfl, id⟩

theorem clearSend_same (c : Conn η ω) : SameSends c { c with sendPending := false } :=
  ⟨rfl, rfl, rfl, rfl, fun h => absurd h (by simp), id, rfl, rfl, id⟩

/-- A RECV completion. -/
theorem onRecv_serves (o : LoopOpts η) (env : LoopEnv η P υ ω) (io : LoopIo P υ) {c : Conn η ω}
    (hc : ConnInv c) (res : Except ℤ Bytes) : Serves c (onRecv o env io c res).2.1 False := by
  have hclear := clearRecv_same c
  have hbroke : Serves c ({ c.broke with recvPending := false } : Conn η ω) False :=
    ((broke_same c).serves hc False.elim).trans
      ((clearRecv_same c.broke).serves ((broke_same c).inv hc) False.elim)
  have hstart : Serves c ({ c with recvPending := false } : Conn η ω) False :=
    hclear.serves hc False.elim
  unfold onRecv
  split
  case h_1 => exact hbroke.trans (closeConn_serves io hbroke.inv (.inl rfl))
  case h_2 hst =>
    exact hstart.trans (closeConn_serves io hstart.inv (.inr (hc.between (.inr (.inr hst)))))
  case h_3 hst =>
    exact hstart.trans (closeOnError_serves (recvWs_serves o env io hstart.inv hst _))
  case h_4 => exact hbroke.trans (closeConn_serves io hbroke.inv (.inl rfl))
  case h_5 hst =>
    have h := handleHttpBytes_serves o env io hstart.inv hst (by assumption)
    exact hstart.trans (closeOnError_serves (r := (_, _, _)) h)
  case h_6 => exact (SameSends.refl c).serves hc False.elim

/-- A SEND completion moves on by what the kernel took. -/
theorem onSend_serves (o : LoopOpts η) (env : LoopEnv η P υ ω) (io : LoopIo P υ) {c : Conn η ω}
    (hc : ConnInv c) (hpend : c.sendPending = true) (res : Except ℤ ℕ) :
    Serves c (onSend o env io c res).2 False := by
  have hst := (hc.pending hpend).1
  unfold onSend
  split_ifs
  · exact (SameSends.refl c).serves hc False.elim
  cases res with
  | error e =>
    have hbroke : Serves c ({ c.broke with sendPending := false } : Conn η ω) False :=
      ((broke_same c).serves hc False.elim).trans
        ((clearSend_same c.broke).serves ((broke_same c).inv hc) False.elim)
    exact hbroke.trans (closeConn_serves io hbroke.inv (.inl rfl))
  | ok n =>
    have hstart : Serves c ({ c with sendPending := false } : Conn η ω) False :=
      (clearSend_same c).serves hc False.elim
    obtain ⟨hadv, hbufs⟩ := advance_inv hstart.inv hst n
    have hfirst : Serves c (Conn.advance { c with sendPending := false } n) False :=
      hstart.trans ⟨hadv, hbufs ▸ List.prefix_rfl, False.elim⟩
    simp only
    split_ifs with hend
    · exact hfirst.trans (closeOnError_serves (handleSendComplete_serves (submitSend_drives o env) o
        env _ (hadv.ready_of_sent hst hend rfl) hadv))
    · exact hfirst.trans (closeOnError_serves (submitSend_drives o env _ _ hadv hst))

/-- A POLL completion. -/
theorem onPoll_serves (o : LoopOpts η) (env : LoopEnv η P υ ω) (io : LoopIo P υ) {c : Conn η ω}
    (hc : ConnInv c) (ok : Bool) : Serves c (onPoll o env io c ok).2.1 False := by
  have hstart : Serves c ({ c with pollPending := false } : Conn η ω) False :=
    (clearPoll_same c).serves hc False.elim
  unfold onPoll
  split_ifs
  · exact (SameSends.refl c).serves hc False.elim
  · have hbroke : Serves c ({ c.broke with pollPending := false } : Conn η ω) False :=
      ((broke_same c).serves hc False.elim).trans
        ((clearPoll_same c.broke).serves ((broke_same c).inv hc) False.elim)
    exact hbroke.trans (closeConn_serves io hbroke.inv (.inl rfl))
  · simp only
    split
    case h_1 => exact hstart
    case h_2 ssl hssl =>
      have h := handleTlsPoll_serves o env io hstart.inv hssl
      exact hstart.trans (closeOnError_serves (r := (_, _, _)) h)

/-- The fan-out to one connection. -/
theorem flushPending_serves (o : LoopOpts η) (env : LoopEnv η P υ ω) (io : LoopIo P υ)
    {c : Conn η ω} (hc : ConnInv c) : Serves c (flushPending o env io c).2 False := by
  unfold flushPending
  split_ifs with hsub
  · exact (wsTrySendPending_serves (submitSend_drives o env) o env io (hc.ready (.inr (.inr hsub.1)))
      hsub.1).imp False.elim
  · exact (SameSends.refl c).serves hc False.elim

/-- An event that belongs to the connection keeps the invariant. -/
theorem connStep_serves (o : LoopOpts η) {c : Conn η ω} (hc : ConnInv c) (ev : ConnEvent η P υ ω)
    (hattr : Attributed c ev) : Serves c (connStep o c ev) False := by
  cases ev with
  | recv env io res => exact onRecv_serves o env io hc res
  | send env io res => exact onSend_serves o env io hc hattr res
  | poll env io ok => exact onPoll_serves o env io hc ok
  | fanOut env io => exact flushPending_serves o env io hc

/-! ## Runs -/

/-- A new connection has nothing to send. -/
theorem newConn_ready (o : LoopOpts η) (slot born : ℕ) :
    Ready (newConn o slot born : Conn η ω) where
  past s hs := absurd hs List.not_mem_nil
  finished s hs := absurd hs (by simp [newConn, Conn.idle])
  buf := rfl
  notPending := rfl

theorem openedOr_serves {c : Conn η ω} {r : LoopIo P υ × Conn η ω × ℤ}
    (h : Serves c r.2.1 (r.2.2 ≠ 0)) : Serves c (openedOr r).2.1 False := by
  unfold openedOr
  split_ifs with hbad
  · exact h.trans (closeConn_serves r.1 h.inv (h.fails hbad))
  · exact h.imp False.elim

/-- A connection as it is accepted, with TLS or without. -/
theorem accepted_inv (o : LoopOpts η) (env : LoopEnv η P υ ω) (tls : Bool) (io : LoopIo P υ)
    (slot born clientFd : ℕ) : ConnInv (accepted o env tls io slot born clientFd) := by
  have h : Ready (newConn o slot born : Conn η ω) := newConn_ready o slot born
  have hnew : ∀ (ssl : Option Ssl) (st : ConnState), st = .tlsHs ∨ st = .recv ∨ st = .wsRecv →
      ConnInv { (newConn o slot born : Conn η ω) with fd := some clientFd, ssl, state := st } := by
    intro ssl st hst
    have hset : Ready
        { (newConn o slot born : Conn η ω) with fd := some clientFd, ssl, state := st } :=
      ⟨h.past, h.finished, h.buf, h.notPending⟩
    exact hset.inv hst
  have hrecv := hnew none .recv (.inr (.inl rfl))
  unfold accepted openConn openTls
  simp only
  split_ifs
  · exact (openedOr_serves ((SameSends.refl _).serves hrecv fun _ => .inr h.finished)).inv
  · exact (openedOr_serves (pollHandshake_serves o env _ (hnew _ _ (.inl rfl)) rfl)).inv
  · exact (openedOr_serves (submitRecv_serves o _ hrecv)).inv

/-- What a step does to the sends: none that began is forgotten, and as long as no other begins, one
that is going on keeps its buffer and its length. -/
structure KeepsSends (c c' : Conn η ω) : Prop where
  bufs : c.log.bufs <+: c'.log.bufs
  buffer : InSend c.state → InSend c'.state → c'.log.bufs = c.log.bufs →
    c'.sendLen = c.sendLen ∧ c'.sendBuf.map (·.take c.sendLen) = c.sendBuf.map (·.take c.sendLen)

/-- The same send is going on before and after. -/
theorem SendIntact.keeps {c c' : Conn η ω} (hc : SendIntact c) (hc' : SendIntact c')
    (hbufs : c.log.bufs <+: c'.log.bufs) : KeepsSends c c' where
  bufs := hbufs
  buffer hst hst' heq := by
    obtain ⟨buf, s, hbuf, hlast, hlen, hsbuf, -⟩ := hc.sending hst
    obtain ⟨buf', s', hbuf', hlast', hlen', hsbuf', -⟩ := hc'.sending hst'
    simp only [ConnLog.bufs, hlast, hlast', Option.toList_some, List.map_append, List.map_cons,
      List.map_nil] at heq
    have hsame : s'.buf = s.buf := (List.cons.inj (List.append_inj' heq rfl).2).1
    have hlength := congrArg List.length hsame
    rw [hsbuf', hsbuf, List.length_take, List.length_take] at hlength
    have hlen_eq : c'.sendLen = c.sendLen := by omega
    refine ⟨hlen_eq, ?_⟩
    rw [hbuf', hbuf, Option.map_some, Option.map_some, ← hsbuf, ← hsame, hsbuf', hlen_eq]

/-- **Every send is intact.** In every run of a connection from its acceptance, plain or TLS, over any
completions that belong to it and any fan-outs, every response and frame goes out in order, none of
it twice and none left out; it is out before the connection is promoted, begins another send or is
closed, unless an I/O operation or a submission has failed; and its buffer stays as it was. -/
theorem always_sendIntact (o : LoopOpts η) (env : LoopEnv η P υ ω) (tls : Bool) (io : LoopIo P υ)
    (slot born clientFd : ℕ) (evs : List (ConnEvent η P υ ω))
    (hattr : EachStep (connStep o) Attributed (accepted o env tls io slot born clientFd) evs) :
    Always (connStep o) SendIntact (accepted o env tls io slot born clientFd) evs ∧
      EachStep (connStep o) (fun c ev => KeepsSends c (connStep o c ev))
        (accepted o env tls io slot born clientFd) evs := by
  have hstep : ∀ (c : Conn η ω) (ev : ConnEvent η P υ ω), ConnInv c → Attributed c ev →
      ConnInv (connStep o c ev) := fun c ev hc hev => (connStep_serves o hc ev hev).inv
  have hstart := accepted_inv o env tls io slot born clientFd
  refine ⟨(EachStep.always hstep hstart hattr).mono fun _ h => h.toSendIntact,
    (EachStep.with_inv hstep hstart hattr).mono fun c ev h => ?_⟩
  have hserves := connStep_serves o h.1 ev h.2
  exact h.1.toSendIntact.keeps hserves.inv.toSendIntact hserves.bufs

/-! ## A response sent in pieces -/

/-- A handshake that is through, a record with the given bytes, and the given answers to writes. -/
def sslAnswers (record : Bytes) (writes : List WriteAnswer) : SslAnswers where
  handshake := .done
  record := match record with
    | [] => .want false
    | b :: bs => .record b bs
  writes := writes

/-- The system of a client that joins the stream. -/
def streamEnv (record : Bytes) (writes : List WriteAnswer) :
    LoopEnv Unit Unit Unit Bytes :=
  { Edgehost.streamEnv with newSsl := true, ssl := fun _ => sslAnswers record writes }

/-- A process with a hub for one connection, and an empty ring. -/
def streamIo : LoopIo Unit Unit := ⟨streamWorld, []⟩

/-- A client joins over TLS: its request comes in, and the response goes out in two pieces. -/
def piecewiseEvs : List (ConnEvent Unit Unit Unit Bytes) :=
  [.poll (streamEnv handshake [.wrote 49, .want true]) streamIo true, .fanOut (streamEnv [] []) streamIo,
    .poll (streamEnv [] [.wrote 200]) streamIo true]

theorem always_sendIntact_piecewise :
    EachStep (connStep streamOpts) Attributed
        (accepted streamOpts (streamEnv [] []) true streamIo 0 0 5) piecewiseEvs ∧
      Always (connStep streamOpts) SendIntact
        (accepted streamOpts (streamEnv [] []) true streamIo 0 0 5) piecewiseEvs :=
  have hattr : EachStep (connStep streamOpts) Attributed
      (accepted streamOpts (streamEnv [] []) true streamIo 0 0 5) piecewiseEvs :=
    ⟨by decide +kernel, trivial, by decide +kernel, trivial⟩
  ⟨hattr, (always_sendIntact streamOpts _ true streamIo 0 0 5 piecewiseEvs hattr).1⟩

/-- The response is then out, and the connection promoted. -/
example :
    let c := runFrom (connStep streamOpts)
      (accepted streamOpts (streamEnv [] []) true streamIo 0 0 5) piecewiseEvs
    (c.state, c.log.last.map fun s => (s.wire.length, s.buf.length)) = (.wsRecv, some (129, 129)) := by
  decide +kernel

end Edgehost.Tls
