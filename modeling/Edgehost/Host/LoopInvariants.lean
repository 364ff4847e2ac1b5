import Edgehost.Host.LoopRuns
import Edgehost.Host.ServeFrames

/-!
# Invariants of the loop

A property of the process and the slots survives every turn of the loop if it survives the few things
that the loop ever does to them. What those are is said once; the functions of the loop are gone through
once, for every such property.

* `LoopInv`               — what a property must survive.
* `Kept`                  — a function on one connection keeps it, wherever that connection stands.
* `LoopInv.loopStep_kept` — a turn of the loop keeps it.
* `LoopInv.always`        — so does a run, whatever completes in which order.
-/

namespace Edgehost

variable {η P υ ω : Type*}

/-- The connection belongs to the stream. -/
def ConnState.streams : ConnState → Bool
  | .wsRecv => true
  | .wsSend => true
  | _ => false

/-- A condition on the requests that are served. -/
abbrev FeedCond (η P υ : Type*) := ServeEnv η P υ → EdgeHttp1Serve η → ServeWorld P υ → Bytes → ℕ → Prop

/-- From `c` to `c'` the connection keeps its auth context, or has been given the one of the process. -/
def KeepsAuth (o : LoopOpts η) (c c' : Conn η ω) : Prop :=
  ∀ s', c'.http = some s' → s'.auth = o.newServe.auth ∨ ∃ s, c.http = some s ∧ s'.auth = s.auth

/-- The HTTP connection is the same. -/
theorem KeepsAuth.of_http {o : LoopOpts η} {c c' : Conn η ω} (h : c'.http = c.http) :
    KeepsAuth o c c' :=
  fun s' hs => .inr ⟨s', h ▸ hs, rfl⟩

/-- There is no HTTP connection any more. -/
theorem KeepsAuth.of_none {o : LoopOpts η} {c c' : Conn η ω} (h : c'.http = none) :
    KeepsAuth o c c' := by
  intro s' hs
  rw [h] at hs
  cases hs

/-- The HTTP connection is a new one. -/
theorem KeepsAuth.of_new {o : LoopOpts η} {c c' : Conn η ω} (h : ∀ s', c'.http = some s' → s' = o.newServe) :
    KeepsAuth o c c' :=
  fun s' hs => .inl (h s' hs ▸ rfl)

/-- What the loop does to the process and the slots: a connection changes without joining or leaving the
stream, something is counted, a waiting message is taken, a connection is closed or promoted, a request
with `F` is served, and, given `G`, a scrape is made. No connection exchanges its auth context. -/
structure LoopInv (o : LoopOpts η) (F : FeedCond η P υ) (G : Prop)
    (I : ServeWorld P υ → List (Conn η ω) → Prop) : Prop where
  slotted : ∀ {w conns}, I w conns → Slotted conns
  conn : ∀ {w conns} {c c' : Conn η ω}, I w conns → conns[c.slot]? = some c → c'.slot = c.slot →
    c'.state.streams = c.state.streams → KeepsAuth o c c' → I w (conns.set c.slot c')
  count : ∀ {w conns} f, I w conns → I { w with metrics := w.metrics.map f } conns
  take : ∀ {io : LoopIo P υ} {conns} slot, I io.world conns → I (takePending io slot).1.world conns
  close : ∀ {w conns} {c c' : Conn η ω}, I w conns → conns[c.slot]? = some c → c'.slot = c.slot →
    c'.state = .free → KeepsAuth o c c' →
      I { w with hub := w.hub.map fun h => edgeWsHubUnsubscribe h c.slot } (conns.set c.slot c')
  promote : ∀ {w conns} {c c' : Conn η ω} {h : EdgeWsHub}, I w conns → conns[c.slot]? = some c →
    c'.slot = c.slot → c'.state = .wsRecv → KeepsAuth o c c' → w.hub = some h →
    (edgeWsHubSubscribe h c.slot).2 = 0 →
      I { w with hub := some (edgeWsHubSubscribe h c.slot).1 } (conns.set c.slot c')
  feed : ∀ {w conns} (env : ServeEnv η P υ) (s : EdgeHttp1Serve η) data outCap, I w conns →
    F env s w data outCap → I (edgeHttp1ServeFeed env s w data outCap).world conns
  scrape : ∀ {w conns} {st : StateStore} env cfg, I w conns → w.store = some st → G →
    I { w with
        store := some (edgePqSidecarScrapeOnce env cfg st w.hub).1
        hub := (edgePqSidecarScrapeOnce env cfg st w.hub).2.1 } conns

/-- A function took a connection from `c` to `c'`, and keeps the property wherever that stands. -/
structure Kept (I : ServeWorld P υ → List (Conn η ω) → Prop) (io : LoopIo P υ) (c : Conn η ω)
    (io' : LoopIo P υ) (c' : Conn η ω) : Prop where
  slot : c'.slot = c.slot
  put : ∀ conns, conns[c.slot]? = some c → I io.world conns → I io'.world (conns.set c.slot c')

section

variable {I : ServeWorld P υ → List (Conn η ω) → Prop}

/-- A function that does nothing. -/
theorem Kept.refl (io : LoopIo P υ) (c : Conn η ω) : Kept I io c io c := by
  refine ⟨rfl, fun conns hc h => ?_⟩
  obtain ⟨hlen, heq⟩ := List.getElem?_eq_some_iff.mp hc
  have hset := List.set_getElem_self hlen
  rw [heq] at hset
  rwa [hset]

/-- One function after the other, at the same slot. -/
theorem Kept.trans {io io₁ io₂ : LoopIo P υ} {c c₁ c₂ : Conn η ω} (h : Kept I io c io₁ c₁)
    (h' : Kept I io₁ c₁ io₂ c₂) : Kept I io c io₂ c₂ := by
  refine ⟨h'.slot.trans h.slot, fun conns hc hinv => ?_⟩
  have hlen : c.slot < conns.length := (List.getElem?_eq_some_iff.mp hc).1
  have hput := h'.put (conns.set c.slot c₁) (by rw [h.slot, List.getElem?_set_self hlen])
    (h.put conns hc hinv)
  rwa [h.slot, List.set_set] at hput

/-- A change of the process that the property survives. -/
theorem Kept.of_world {io io' : LoopIo P υ} (c : Conn η ω)
    (hworld : ∀ conns, I io.world conns → I io'.world conns) : Kept I io c io' c :=
  ⟨rfl, fun conns hc h => hworld _ ((Kept.refl io c).put conns hc h)⟩

variable {o : LoopOpts η} {F : FeedCond η P υ} {G : Prop} (hI : LoopInv o F G I)

include hI

/-- A change of the connection, beside one of what is submitted and what was fed. -/
theorem Kept.of_conn {io io' : LoopIo P υ} {c c' : Conn η ω} (hworld : io'.world = io.world)
    (hslot : c'.slot = c.slot) (hstate : c'.state.streams = c.state.streams) (hauth : KeepsAuth o c c') :
    Kept I io c io' c' := by
  refine ⟨hslot, fun conns hc h => ?_⟩
  rw [hworld]
  exact hI.conn h hc hslot hstate hauth

/-- Counting in the metrics. -/
theorem Kept.of_count (io : LoopIo P υ) (c : Conn η ω) (f : EdgeMetrics → EdgeMetrics) :
    Kept I io c (io.count f) c :=
  .of_world c fun _ h => hI.count f h

/-! ## Submitting and closing -/

/-- A submission sets a flag of the connection. -/
theorem submitRecv_kept (io : LoopIo P υ) (c : Conn η ω) :
    Kept I io c (submitRecv o io c).1 (submitRecv o io c).2.1 := by
  unfold submitRecv
  split_ifs
  · exact .refl io c
  · cases hsqe : getSqe o io ⟨.recv, c.slot, c.born⟩ with
    | none => exact .refl io c
    | some io' =>
      obtain rfl := getSqe_eq_some hsqe
      exact .of_conn hI rfl rfl rfl (.of_http rfl)

/-- So does a send that is submitted. -/
theorem submitSend_kept (io : LoopIo P υ) (c : Conn η ω) :
    Kept I io c (submitSend o io c).1 (submitSend o io c).2.1 := by
  unfold submitSend
  split_ifs
  · exact .refl io c
  · cases hsqe : getSqe o io ⟨.send, c.slot, c.born⟩ with
    | none => exact .refl io c
    | some io' =>
      obtain rfl := getSqe_eq_some hsqe
      exact .of_conn hI rfl rfl rfl (.of_http rfl)

/-- A send begins within the stream, or outside of it. -/
theorem beginSendBuf_kept (io : LoopIo P υ) {c : Conn η ω} (buf : Bytes)
    {st : ConnState} (hst : st.streams = c.state.streams) :
    Kept I io c (beginSendBuf o io c buf st).1 (beginSendBuf o io c buf st).2.1 :=
  let c' : Conn η ω := { c with sendBuf := some buf, sendOff := 0, state := st }
  have hconn : Kept I io c io c' := .of_conn hI rfl rfl hst (.of_http rfl)
  hconn.trans (submitSend_kept hI io c')

/-- A connection that is closed leaves the hub as well. -/
theorem closeConn_kept (io : LoopIo P υ) (c : Conn η ω) :
    Kept I io c (closeConn io c).1 (closeConn io c).2 := by
  unfold closeConn
  split_ifs
  · exact .refl io c
  · cases c.fd with
    | none => exact ⟨rfl, fun conns hc h => hI.close h hc rfl rfl (.of_none rfl)⟩
    | some fd => exact ⟨rfl, fun conns hc h => hI.count _ (hI.close h hc rfl rfl (.of_none rfl))⟩

/-- A handler, and the close where it failed. -/
theorem closeOnError_kept {io : LoopIo P υ} {c : Conn η ω} {r : LoopIo P υ × Conn η ω × ℤ}
    (h : Kept I io c r.1 r.2.1) : Kept I io c (closeOnError r).1 (closeOnError r).2 := by
  unfold closeOnError
  split_ifs
  · exact h.trans (closeConn_kept hI r.1 r.2.1)
  · exact h

/-! ## The stream -/

/-- A frame on the stream. -/
theorem sendFrame_kept (io : LoopIo P υ) {c : Conn η ω} (frame : Bytes)
    (hstreams : c.state.streams) :
    Kept I io c (sendFrame o io c frame).1 (sendFrame o io c frame).2.1 :=
  beginSendBuf_kept hI io frame hstreams.symm

/-- What the library has queued. -/
theorem wsFlushOutput_kept (env : LoopEnv η P υ ω) (io : LoopIo P υ) {c : Conn η ω}
    (hstreams : c.state.streams) :
    Kept I io c (wsFlushOutput o env io c).1 (wsFlushOutput o env io c).2.1 := by
  unfold wsFlushOutput
  cases c.ws with
  | none => exact .refl io c
  | some ws =>
    have hlib : ∀ ws' : ω, Kept I io c io { c with ws := some ws' } := fun _ =>
      .of_conn hI rfl rfl rfl (.of_http rfl)
    dsimp only
    split_ifs
    · exact .refl io c
    · exact hlib _
    · exact hlib _
    · exact (hlib _).trans (sendFrame_kept hI io _ hstreams)

omit hI in
/-- A connection of the stream stays one while it is sent to. -/
theorem streams_of_state {s s' : ConnState} (h : s' = s ∨ s' = .wsSend) (hs : s.streams) :
    s'.streams := by
  rcases h with rfl | rfl
  · exact hs
  · rfl

/-- A fan-out to one connection: first what is queued, then one message of the hub. -/
theorem wsTrySendPending_kept (env : LoopEnv η P υ ω) (io : LoopIo P υ)
    {c : Conn η ω} (hstreams : c.state.streams) :
    Kept I io c (wsTrySendPending o env io c).1 (wsTrySendPending o env io c).2.1 := by
  unfold wsTrySendPending
  split_ifs
  · exact .refl io c
  have hflush := wsFlushOutput_kept hI env io hstreams
  have hstreams₁ := streams_of_state (wsFlushOutput_state o env io c) hstreams
  generalize wsFlushOutput o env io c = r at hflush hstreams₁ ⊢
  obtain ⟨io₁, c₁, rc⟩ := r
  dsimp only at hflush hstreams₁ ⊢
  -- A frame that was queued has gone out, or failed to: no message is taken.
  by_cases hrc : rc ≠ 0
  · rw [if_pos hrc]
    exact hflush
  rw [if_neg hrc]
  have htaken : Kept I io c (takePending io₁ c₁.slot).1 c₁ :=
    hflush.trans (.of_world c₁ fun _ h => hI.take c₁.slot h)
  generalize takePending io₁ c₁.slot = t at htaken ⊢
  obtain ⟨io₂, taken, text⟩ := t
  dsimp only at htaken ⊢
  by_cases hone : taken ≠ 1
  · rw [if_pos hone]
    exact htaken
  rw [if_neg hone]
  cases c₁.ws.bind (env.ws.sendText · text) with
  | none => exact htaken
  | some ws =>
    have hlib : ∀ ws' : ω, Kept I io c io₂ { c₁ with ws := some ws' } :=
      fun _ => htaken.trans (.of_conn hI rfl rfl rfl (.of_http rfl))
    dsimp only
    split_ifs
    · exact hlib _
    · exact (hlib _).trans (sendFrame_kept hI io₂ _ hstreams₁)

/-- A slot of the fan-out. -/
theorem flushPending_kept (env : LoopEnv η P υ ω) (io : LoopIo P υ)
    (c : Conn η ω) : Kept I io c (flushPending o env io c).1 (flushPending o env io c).2 := by
  unfold flushPending
  split_ifs with h
  · exact wsTrySendPending_kept hI env io (by rw [h.1]; rfl)
  · exact .refl io c

/-- The one place where a connection joins the stream. -/
theorem promoteToWs_kept (env : LoopEnv η P υ ω) (io : LoopIo P υ) (c : Conn η ω) :
    Kept I io c (promoteToWs o env io c).1 (promoteToWs o env io c).2.1 := by
  have hfailed : Kept I io c io { c with ws := none } := .of_conn hI rfl rfl rfl (.of_http rfl)
  unfold promoteToWs
  cases env.ws.create with
  | none => exact hfailed
  | some ws =>
    cases hhub : io.world.hub with
    | none => exact hfailed
    | some h =>
      dsimp only
      by_cases hrc : (edgeWsHubSubscribe h c.slot).2 ≠ 0
      · rw [if_pos hrc]
        exact hfailed
      rw [if_neg hrc]
      let io' : LoopIo P υ :=
        { io with world := { io.world with hub := some (edgeWsHubSubscribe h c.slot).1 } }
      let c' : Conn η ω := { c with ws := some ws, keepWs := false, state := .wsRecv, http := none }
      -- The subscription and the state change together, which is why `promote` is one step.
      have hpromoted : Kept I io c io' c' :=
        ⟨rfl, fun conns hc hinv => hI.promote hinv hc rfl rfl (.of_none rfl) hhub (by simpa using hrc)⟩
      have hrecv := hpromoted.trans (submitRecv_kept hI io' c')
      have hstate : (submitRecv o io' c').2.1.state = .wsRecv := submitRecv_state o io' c'
      generalize submitRecv o io' c' = r at hrecv hstate ⊢
      obtain ⟨io₁, c₁, rc⟩ := r
      dsimp only at hrecv hstate ⊢
      split_ifs
      · exact hrecv
      · exact hrecv.trans (wsTrySendPending_kept hI env io₁ (by rw [hstate]; rfl))

/-- A send that is out: the connection is promoted, goes on with the stream, or is closed. -/
theorem handleSendComplete_kept (env : LoopEnv η P υ ω) (io : LoopIo P υ)
    (c : Conn η ω) :
    Kept I io c (handleSendComplete o env io c).1 (handleSendComplete o env io c).2.1 := by
  unfold handleSendComplete
  by_cases hpromote : c.state = .send ∧ c.keepWs
  · rw [if_pos hpromote]
    exact promoteToWs_kept hI env io c
  rw [if_neg hpromote]
  by_cases hstate : c.state = .wsSend
  · rw [if_pos hstate]
    let c' : Conn η ω := { c with state := .wsRecv }
    have hconn : Kept I io c io c' := .of_conn hI rfl rfl (by rw [hstate]; rfl) (.of_http rfl)
    have hsend := hconn.trans (wsTrySendPending_kept hI env io (show c'.state.streams from rfl))
    generalize wsTrySendPending o env io c' = r at hsend ⊢
    obtain ⟨io₁, c₁, rc⟩ := r
    dsimp only at hsend ⊢
    split_ifs
    · exact hsend.trans (submitRecv_kept hI io₁ c₁)
    · exact hsend
  · rw [if_neg hstate]
    exact closeConn_kept hI io c

/-- Bytes of the stream. -/
theorem handleWsRecv_kept (env : LoopEnv η P υ ω) (io : LoopIo P υ) {c : Conn η ω}
    (data : Bytes) (hstreams : c.state.streams) :
    Kept I io c (handleWsRecv o env io c data).1 (handleWsRecv o env io c data).2.1 := by
  unfold handleWsRecv
  cases c.ws with
  | none => exact .refl io c
  | some ws =>
    dsimp only
    generalize wsEvents env (env.ws.feedInput ws data).1 (env.ws.feedInput ws data).2 = r
    let io₁ : LoopIo P υ := { io with fed := io.fed ++ [(c.born, data)] }
    let f := fun m : EdgeMetrics => { m with bytesIn := m.bytesIn + UInt64.ofNat data.length }
    let c' : Conn η ω := { c with ws := some r.1 }
    have hconn : Kept I io c io₁ c' := .of_conn hI rfl rfl rfl (.of_http rfl)
    have hfed : Kept I io c (io₁.count f) c' := hconn.trans (.of_count hI io₁ c' f)
    by_cases hrc : r.2 ≠ 0
    · rw [if_pos hrc]
      exact hfed
    rw [if_neg hrc]
    have hflush := hfed.trans
      (wsFlushOutput_kept hI env (io₁.count f) (show c'.state.streams from hstreams))
    split_ifs
    · exact hflush
    · exact hflush
    · exact hfed

/-! ## HTTP connections -/

/-- The reply to an empty read. -/
theorem beginBadRequestPlain_kept (io : LoopIo P υ) {c : Conn η ω}
    (hstate : c.state = .recv) :
    Kept I io c (beginBadRequestPlain o io c).1 (beginBadRequestPlain o io c).2.1 := by
  unfold beginBadRequestPlain
  split_ifs
  · exact .refl io c
  · exact (Kept.of_count hI io c _).trans (beginSendBuf_kept hI _ badRequest (by rw [hstate]; rfl))

/-- The one place where a request is served. -/
theorem handleHttpBytes_kept (env : LoopEnv η P υ ω) (io : LoopIo P υ)
    {c : Conn η ω} (data : Bytes) (hstate : c.state = .recv)
    (hfeeds : ∀ s, c.http = some s → F env.serve s io.world data o.sendCap) :
    Kept I io c (handleHttpBytes o env io c data).1 (handleHttpBytes o env io c data).2.1 := by
  unfold handleHttpBytes
  by_cases hdata : data = []
  · rw [if_pos hdata]
    exact beginBadRequestPlain_kept hI io hstate
  rw [if_neg hdata]
  cases hhttp : c.http with
  | none => exact .refl io c
  | some http =>
    dsimp only
    have hfeed : ∀ conns, I io.world conns →
        I (edgeHttp1ServeFeed env.serve http io.world data o.sendCap).world conns :=
      fun _ h => hI.feed env.serve http data o.sendCap h (hfeeds http hhttp)
    have hctx := feed_auth env.serve http io.world data o.sendCap
    generalize edgeHttp1ServeFeed env.serve http io.world data o.sendCap = served at hfeed hctx ⊢
    -- A feed leaves the auth context alone, whatever it does to the rest.
    have hauth : ∀ c' : Conn η ω, c'.http = some served.serve → KeepsAuth o c c' := by
      intro c' hc' s' hs'
      obtain rfl := Option.some.inj (hc'.symm.trans hs')
      exact .inr ⟨http, hhttp, hctx⟩
    let io' : LoopIo P υ := { world := served.world, sq := io.sq, fed := io.fed ++ [(c.born, data)] }
    let c' : Conn η ω := { c with http := some served.serve }
    let c'' : Conn η ω := { c' with keepWs := served.serve.wsUpgrade }
    have hserved : Kept I io c io' c := .of_world c hfeed
    have hfed : Kept I io c io' c' := hserved.trans (.of_conn hI rfl rfl rfl (hauth c' rfl))
    by_cases hfailed : served.ret < 0
    · rw [if_pos hfailed]
      exact hfed
    rw [if_neg hfailed]
    by_cases hwait : served.ret = 0
    · rw [if_pos hwait]
      exact hfed.trans (submitRecv_kept hI io' c')
    rw [if_neg hwait]
    have hkeep : Kept I io c io' c'' := hserved.trans (.of_conn hI rfl rfl rfl (hauth c'' rfl))
    have hsend := hkeep.trans (beginSendBuf_kept hI io' served.out
      (show ConnState.streams .send = c''.state.streams by rw [show c''.state = .recv from hstate]; rfl))
    generalize beginSendBuf o io' c'' served.out .send = r at hsend ⊢
    split_ifs <;> exact hsend

/-! ## The slots -/

omit hI in
/-- Put back what a function made of the connection of a slot. -/
theorem Kept.serverPut {srv : Server η P υ ω} {c : Conn η ω} {r : LoopIo P υ × Conn η ω}
    (hkept : Kept I srv.io c r.1 r.2) (hc : srv.conns[c.slot]? = some c)
    (h : I srv.io.world srv.conns) : I (srv.put r).io.world (srv.put r).conns := by
  unfold Server.put
  rw [hkept.slot]
  exact hkept.put srv.conns hc h

/-- The fan-out over all slots, by induction on those to come. -/
theorem LoopInv.wsFlushAllPending_kept (env : LoopEnv η P υ ω)
    (cs pre : List (Conn η ω)) (io : LoopIo P υ) (h : I io.world (pre ++ cs)) :
    I (wsFlushAllPending o env io cs).1.world (pre ++ (wsFlushAllPending o env io cs).2) := by
  -- `pre` is what the fan-out has passed already.
  induction cs generalizing pre io with
  | nil => exact h
  | cons c cs ih =>
    have hget : (pre ++ c :: cs)[pre.length]? = some c := by simp
    have hslot : c.slot = pre.length := hI.slotted h _ _ hget
    have hput := (flushPending_kept hI env io c).put _ (by rw [hslot]; exact hget) h
    rw [hslot, List.set_append_right _ _ le_rfl, Nat.sub_self, List.set_cons_zero] at hput
    have hnext := ih (pre ++ [(flushPending o env io c).2]) (flushPending o env io c).1
      (by rw [List.append_assoc]; exact hput)
    rw [List.append_assoc] at hnext
    exact hnext

/-- The fan-out of a server. -/
theorem LoopInv.flushAll_kept (env : LoopEnv η P υ ω) {srv : Server η P υ ω}
    (h : I srv.io.world srv.conns) : I (flushAll o env srv).io.world (flushAll o env srv).conns :=
  hI.wsFlushAllPending_kept env srv.conns [] srv.io h

/-! ## Completions -/

omit hI in
/-- The next accept touches neither the process nor a slot. -/
theorem submitAccept_world (o : LoopOpts η) (srv : Server η P υ ω) :
    (submitAccept o srv).io.world = srv.io.world ∧ (submitAccept o srv).conns = srv.conns := by
  unfold submitAccept
  split_ifs
  · exact ⟨rfl, rfl⟩
  · exact ⟨rfl, rfl⟩
  · cases hsqe : getSqe o srv.io ⟨.accept, 0, 0⟩ with
    | none => exact ⟨rfl, rfl⟩
    | some io =>
      obtain rfl := getSqe_eq_some hsqe
      exact ⟨rfl, rfl⟩

/-- A connection is accepted into a slot that held none, and does not belong to the stream yet. -/
theorem LoopInv.acceptOne_kept (env : LoopEnv η P υ ω) {srv : Server η P υ ω}
    (clientFd : ℕ) (h : I srv.io.world srv.conns) :
    I (acceptOne o env srv clientFd).io.world (acceptOne o env srv clientFd).conns := by
  unfold acceptOne
  split_ifs
  · exact h
  cases hslot : freeSlot srv.conns with
  | none => exact hI.count _ h
  | some i =>
    obtain ⟨hlen, hfree, -⟩ := List.findIdx?_eq_some_iff_getElem.mp hslot
    have hget : srv.conns[i]? = some srv.conns[i] := List.getElem?_eq_getElem hlen
    have hi : srv.conns[i].slot = i := hI.slotted h i _ hget
    have hidle : srv.conns[i].state = .free := of_decide_eq_true hfree
    -- Whatever `alloc_conn` could get, the connection is in its slot, new, and outside the stream.
    have hfresh : ∀ c : Conn η ω, c.slot = i → c.state = .recv →
        (∀ s, c.http = some s → s = o.newServe) → Kept I srv.io srv.conns[i] srv.io c := by
      intro c hcslot hcstate hcnew
      refine .of_conn hI rfl (hcslot.trans hi.symm) ?_ (.of_new hcnew)
      rw [hcstate, hidle]
      rfl
    have hput : ∀ {io' : LoopIo P υ} {c : Conn η ω}, Kept I srv.io srv.conns[i] io' c →
        I io'.world (srv.conns.set i c) := by
      intro io' c hkept
      have hset := hkept.put srv.conns (by rw [hi]; exact hget) h
      rwa [hi] at hset
    have hslotAlloc : (allocConn o env i srv.births).1.slot = i := by
      unfold allocConn
      dsimp only
      split_ifs <;> rfl
    have hstateAlloc : (allocConn o env i srv.births).1.state = .recv := by
      unfold allocConn
      dsimp only
      split_ifs <;> rfl
    have hnewAlloc : ∀ s, (allocConn o env i srv.births).1.http = some s → s = o.newServe := by
      intro s hs
      unfold allocConn at hs
      dsimp only at hs
      split_ifs at hs
      · cases hs
      · cases hs
      · exact (Option.some.inj hs).symm
    dsimp only
    split_ifs
    · exact hI.count _ (hput (hfresh _ hslotAlloc hstateAlloc hnewAlloc))
    · let f := fun m : EdgeMetrics =>
        { m with accepts := m.accepts + 1, activeConns := m.activeConns + 1 }
      let c : Conn η ω := { (allocConn o env i srv.births).1 with fd := some clientFd }
      have hmade : Kept I srv.io srv.conns[i] (srv.io.count f) c :=
        (hfresh c hslotAlloc hstateAlloc hnewAlloc).trans (.of_count hI srv.io c f)
      exact hput (closeOnError_kept hI (hmade.trans (submitRecv_kept hI (srv.io.count f) c)))

/-- An accept that completes. -/
theorem LoopInv.onAccept_kept (env : LoopEnv η P υ ω) {srv : Server η P υ ω}
    (res : Except ℤ ℕ) (h : I srv.io.world srv.conns) :
    I (onAccept o env srv res).io.world (onAccept o env srv res).conns := by
  unfold onAccept
  dsimp only
  rw [(submitAccept_world o _).1, (submitAccept_world o _).2]
  cases res with
  | error err => exact h
  | ok fd => exact hI.acceptOne_kept env fd h

/-- A send that completes. -/
theorem LoopInv.onSend_kept (env : LoopEnv η P υ ω) {srv : Server η P υ ω}
    {c : Conn η ω} (hc : srv.conns[c.slot]? = some c) (res : Except ℤ ℕ)
    (h : I srv.io.world srv.conns) :
    I (onSend o env srv c res).io.world (onSend o env srv c res).conns := by
  unfold onSend
  cases res with
  | error err =>
    have hflag : Kept I srv.io c srv.io { c with sendPending := false } :=
      .of_conn hI rfl rfl rfl (.of_http rfl)
    exact (hflag.trans (closeConn_kept hI ..)).serverPut hc h
  | ok n =>
    dsimp only
    let f := fun m : EdgeMetrics => { m with bytesOut := m.bytesOut + UInt64.ofNat n }
    let c' : Conn η ω := { c with sendPending := false, sendOff := c.sendOff + n }
    have hconn : Kept I srv.io c srv.io c' := .of_conn hI rfl rfl rfl (.of_http rfl)
    have hsent : Kept I srv.io c (srv.io.count f) c' := hconn.trans (.of_count hI srv.io c' f)
    split_ifs
    · exact (hsent.trans (closeOnError_kept hI (handleSendComplete_kept hI env _ c'))).serverPut hc h
    · exact (hsent.trans (closeOnError_kept hI (submitSend_kept hI _ c'))).serverPut hc h

/-- A receive that completes: the bytes are handled in the two states that receive, and dropped in the
others. -/
theorem LoopInv.onRecv_kept (env : LoopEnv η P υ ω) {srv : Server η P υ ω}
    {c : Conn η ω} (hc : srv.conns[c.slot]? = some c) (res : Except ℤ Bytes)
    (h : I srv.io.world srv.conns)
    (hfeeds : ∀ data s, res = .ok data → c.state = .recv → c.http = some s →
      F env.serve s srv.io.world data o.sendCap) :
    I (onRecv o env srv c res).io.world (onRecv o env srv c res).conns := by
  by_cases hstate : c.state = .recv ∨ c.state = .wsRecv
  swap
  · -- Nothing else expects to receive.
    rw [onRecv_of_not hstate]
    exact h
  let c₁ : Conn η ω := { c with recvPending := false }
  have hflag : Kept I srv.io c srv.io c₁ := .of_conn hI rfl rfl rfl (.of_http rfl)
  have hclose := (hflag.trans (closeConn_kept hI srv.io c₁)).serverPut hc h
  unfold onRecv
  split
  · exact hclose
  · exact hclose
  · rename_i data _ hws
    have hfed := hflag.trans (handleWsRecv_kept hI env srv.io data
      (show c₁.state.streams by rw [show c₁.state = .wsRecv from hws]; rfl))
    dsimp only
    generalize handleWsRecv o env srv.io c₁ data = r at hfed ⊢
    obtain ⟨io, c', rc⟩ := r
    dsimp only at hfed ⊢
    split_ifs
    · exact (hfed.trans (closeConn_kept hI io c')).serverPut hc h
    · exact (hfed.trans (closeOnError_kept hI (submitRecv_kept hI io c'))).serverPut hc h
    · exact hfed.serverPut hc h
  · exact hclose
  · rename_i data hrecv
    have hfed := hflag.trans (handleHttpBytes_kept hI env srv.io data
      (show c₁.state = .recv from hrecv) fun s hs => hfeeds data s rfl hrecv hs)
    dsimp only
    generalize handleHttpBytes o env srv.io c₁ data = r at hfed ⊢
    obtain ⟨io, c', rc, flush⟩ := r
    have hput := (closeOnError_kept (r := (io, c', rc)) hI hfed).serverPut hc h
    cases flush with
    | true => exact hI.flushAll_kept env hput
    | false => exact hput
  · exact h

/-- A completion finds the connection in its slot. -/
theorem LoopInv.atSlot_kept {srv : Server η P υ ω} {slot : ℕ} {f : Conn η ω → Server η P υ ω}
    (h : I srv.io.world srv.conns)
    (hf : ∀ c : Conn η ω, srv.conns[slot]? = some c → srv.conns[c.slot]? = some c →
      I (f c).io.world (f c).conns) :
    I (atSlot srv slot f).io.world (atSlot srv slot f).conns := by
  unfold atSlot
  cases hc : srv.conns[slot]? with
  | none => exact h
  | some c =>
    obtain rfl := hI.slotted h slot c hc
    dsimp only
    split_ifs
    · exact h
    · exact hf c hc hc

/-- A turn without a completion: a fan-out, and at times a scrape with another one. -/
theorem LoopInv.onTimeout_kept (env : LoopEnv η P υ ω) {srv : Server η P υ ω}
    (hG : G) (h : I srv.io.world srv.conns) :
    I (onTimeout o env srv).io.world (onTimeout o env srv).conns := by
  have hflush := hI.flushAll_kept env h
  unfold onTimeout
  dsimp only
  generalize flushAll o env srv = srv' at hflush ⊢
  cases hst : srv'.io.world.store with
  | none => exact hflush
  | some st =>
    dsimp only
    split_ifs
    · exact hflush
    · exact hI.flushAll_kept env (hI.scrape env.scrape o.pqCfg hflush hst hG)
    · exact hflush

omit hI in
/-- A completion is taken up, or nothing happens. -/
theorem completeOp_kept (o : LoopOpts η) {srv : Server η P υ ω} (sqe : Sqe) (taken : ℕ)
    {f : Server η P υ ω → Server η P υ ω} (h : I srv.io.world srv.conns)
    (hf : I (f { srv with inFlight := srv.inFlight.erase sqe }).io.world
      (f { srv with inFlight := srv.inFlight.erase sqe }).conns) :
    I (completeOp o srv sqe taken f).io.world (completeOp o srv sqe taken f).conns := by
  unfold completeOp
  split_ifs
  · exact h
  · exact hf

/-! ## Runs -/

/-- The request that a turn serves, if it does, has `F`; and a turn that may scrape has `G`. -/
def Permits (F : FeedCond η P υ) (G : Prop) (o : LoopOpts η) (srv : Server η P υ ω) :
    LoopEvent η P υ ω → Prop
  | .received env slot _ res _ => ∀ c s data, srv.conns[slot]? = some c → res = .ok data →
      c.state = .recv → c.http = some s → F env.serve s srv.io.world data o.sendCap
  | .timeout _ _ => G
  | _ => True

/-- **A permitted turn of the loop keeps the property.** -/
theorem LoopInv.loopStep_kept {srv : Server η P υ ω} (ev : LoopEvent η P υ ω)
    (hev : Permits F G o srv ev) (h : I srv.io.world srv.conns) :
    I (loopStep o srv ev).io.world (loopStep o srv ev).conns := by
  cases ev with
  | accepted env res taken => exact completeOp_kept o _ taken h (hI.onAccept_kept env res h)
  | received env slot owner res taken =>
    refine completeOp_kept o _ taken h (hI.atSlot_kept h fun c hat hc => ?_)
    exact hI.onRecv_kept env hc res h fun data s => hev c s data hat
  | sent env slot owner res taken =>
    exact completeOp_kept o _ taken h (hI.atSlot_kept h fun c _ hc => hI.onSend_kept env hc res h)
  | timeout env taken =>
    have hstep : loopStep o srv (.timeout env taken)
        = if shouldStop o srv then srv else ioUringSubmit (onTimeout o env srv) taken := rfl
    rw [hstep]
    split_ifs
    · exact h
    · exact hI.onTimeout_kept env hev h

end

/-- Every request is served, and every scrape made. -/
abbrev AnyFeed (η P υ : Type*) : FeedCond η P υ := fun _ _ _ _ _ => True

/-- Nothing has to be permitted. -/
theorem permits_any (o : LoopOpts η) (srv : Server η P υ ω) (ev : LoopEvent η P υ ω) :
    Permits (AnyFeed η P υ) True o srv ev := by
  cases ev with
  | received => exact fun _ _ _ _ _ _ _ => trivial
  | accepted => trivial
  | sent => trivial
  | timeout => trivial

/-- **A permitted run keeps the property**, whatever the kernel completes and in which order, and whatever
fails on the way. -/
theorem LoopInv.always_of {I : ServeWorld P υ → List (Conn η ω) → Prop} {o : LoopOpts η}
    {F : FeedCond η P υ} {G : Prop} (hI : LoopInv o F G I) {srv : Server η P υ ω}
    (h : I srv.io.world srv.conns) (evs : List (LoopEvent η P υ ω))
    (hevs : ∀ ev ∈ evs, ∀ srv, Permits F G o srv ev) :
    Always (loopStep o) (fun srv => I srv.io.world srv.conns) srv evs := by
  induction evs generalizing srv with
  | nil => exact h
  | cons ev evs ih =>
    exact ⟨h, ih (hI.loopStep_kept ev (hevs ev List.mem_cons_self srv) h)
      fun e he => hevs e (List.mem_cons_of_mem ev he)⟩

/-- So does any run, where nothing has to be permitted. -/
theorem LoopInv.always {I : ServeWorld P υ → List (Conn η ω) → Prop} {o : LoopOpts η}
    (hI : LoopInv o (AnyFeed η P υ) True I) {srv : Server η P υ ω} (h : I srv.io.world srv.conns)
    (evs : List (LoopEvent η P υ ω)) :
    Always (loopStep o) (fun srv => I srv.io.world srv.conns) srv evs :=
  hI.always_of h evs fun ev _ srv => permits_any o srv ev

/-- At the start every slot is free. -/
theorem loopStart_idle {n i : ℕ} {world : ServeWorld P υ} {c : Conn η ω}
    (hc : (loopStart n world).conns[i]? = some c) : c = .idle i := by
  unfold loopStart at hc
  rw [List.getElem?_map, Option.map_eq_some_iff] at hc
  obtain ⟨j, hj, rfl⟩ := hc
  obtain ⟨-, rfl⟩ := List.getElem?_eq_some_iff.mp hj
  rw [List.getElem_range]

/-- At the start every connection knows its slot. -/
theorem loopStart_slotted (n : ℕ) (world : ServeWorld P υ) :
    Slotted (loopStart (η := η) (ω := ω) n world).conns := by
  intro i c hc
  rw [loopStart_idle hc]
  rfl

/-- Every connection knows its slot, whatever the loop does. -/
theorem slotted_loopInv (o : LoopOpts η) :
    LoopInv o (AnyFeed η P υ) True fun (_ : ServeWorld P υ) (conns : List (Conn η ω)) =>
      Slotted conns where
  slotted h := h
  conn h _ hslot _ _ := h.set hslot
  count _ h := h
  take _ h := h
  close h _ hslot _ _ := h.set hslot
  promote h _ hslot _ _ _ _ := h.set hslot
  feed _ _ _ _ h _ := h
  scrape _ _ h _ _ := h

end Edgehost
