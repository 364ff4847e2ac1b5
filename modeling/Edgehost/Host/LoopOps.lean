import Edgehost.Host.IouringLoop

/-!
# What a connection does to the loop

One statement about every function that works on one connection: what it submits belongs to this
connection, and `recv_pending` keeps count of the receives.

* `Acts`                — the statement.
* `handleWsRecv_acts`, `handleHttpBytes_acts`, `handleSendComplete_acts` — it holds of the handlers.
-/

namespace Edgehost

variable {η P υ ω : Type*}

/-- What a state asks of the rest of a connection. -/
structure Sound (c : Conn η ω) : Prop where
  send : c.state = .send → c.recvPending = false
  http : c.state = .recv → c.recvPending → c.http.isSome
  ws : c.state = .wsRecv ∨ c.state = .wsSend → c.ws.isSome

/-- A receive. -/
def isRecv (op : Sqe) : Bool := op.op = .recv

/-- A function took a connection from `c` to `c'`: what it submitted belongs to the connection, the
receives among it are those that `recvPending` gained, and `new` is what it gave to a parser. -/
structure Acts (new : List (ℕ × Bytes)) (io : LoopIo P υ) (c : Conn η ω) (io' : LoopIo P υ)
    (c' : Conn η ω) : Prop where
  slot : c'.slot = c.slot
  born : c'.born = c.born
  fed : io'.fed = io.fed ++ new
  sound : Sound c → Sound c'
  sq : ∃ ops, io'.sq = io.sq ++ ops ∧ (∀ op ∈ ops, op.slot = c.slot ∧ op.owner = c.born) ∧
    (c'.state ≠ .free → c.state ≠ .free ∧
      ops.countP isRecv + c.recvPending.toNat = c'.recvPending.toNat)

/-- A function that does nothing. -/
theorem Acts.refl (io : LoopIo P υ) (c : Conn η ω) : Acts [] io c io c :=
  ⟨rfl, rfl, (List.append_nil _).symm, id, [], (List.append_nil _).symm,
    fun _ h => absurd h List.not_mem_nil, fun h => ⟨h, Nat.zero_add _⟩⟩

/-- One function after the other: what they submitted, and what they gave to the parser, in this order. -/
theorem Acts.trans {a b : List (ℕ × Bytes)} {io io₁ io₂ : LoopIo P υ} {c c₁ c₂ : Conn η ω}
    (h : Acts a io c io₁ c₁) (h' : Acts b io₁ c₁ io₂ c₂) : Acts (a ++ b) io c io₂ c₂ := by
  obtain ⟨ops, hops, hown, hcount⟩ := h.sq
  obtain ⟨ops', hops', hown', hcount'⟩ := h'.sq
  refine ⟨h'.slot.trans h.slot, h'.born.trans h.born, ?_, h'.sound ∘ h.sound, ops ++ ops', ?_, ?_, ?_⟩
  · rw [h'.fed, h.fed, List.append_assoc]
  · rw [hops', hops, List.append_assoc]
  · intro op hop
    rcases List.mem_append.mp hop with hop | hop
    · exact hown op hop
    · rw [← h.slot, ← h.born]
      exact hown' op hop
  · intro hlive
    obtain ⟨hlive', heq'⟩ := hcount' hlive
    obtain ⟨hlive'', heq⟩ := hcount hlive'
    refine ⟨hlive'', ?_⟩
    rw [List.countP_append]
    omega

/-- A change of the connection alone. -/
theorem Acts.of_conn (io : LoopIo P υ) {c c' : Conn η ω} (hslot : c'.slot = c.slot)
    (hborn : c'.born = c.born) (hsound : Sound c → Sound c')
    (hlive : c'.state ≠ .free → c.state ≠ .free ∧ c'.recvPending = c.recvPending) :
    Acts [] io c io c' :=
  ⟨hslot, hborn, (List.append_nil _).symm, hsound, [], (List.append_nil _).symm,
    fun _ h => absurd h List.not_mem_nil,
    fun h => ⟨(hlive h).1, by rw [(hlive h).2]; exact Nat.zero_add _⟩⟩

/-- A change of the process alone. -/
theorem Acts.of_world {new : List (ℕ × Bytes)} {io io₁ io' : LoopIo P υ} {c c' : Conn η ω}
    (h : Acts new io c io' c') (hsq : io₁.sq = io.sq) (hfed : io₁.fed = io.fed) :
    Acts new io₁ c io' c' := by
  obtain ⟨ops, hops, hrest⟩ := h.sq
  exact ⟨h.slot, h.born, by rw [hfed]; exact h.fed, h.sound, ops, by rw [hsq]; exact hops, hrest⟩

/-- What is done to the process alone does not matter. -/
theorem Acts.to_world {new : List (ℕ × Bytes)} {io io₁ io' : LoopIo P υ} {c c' : Conn η ω}
    (h : Acts new io c io' c') (hsq : io₁.sq = io'.sq) (hfed : io₁.fed = io'.fed) :
    Acts new io c io₁ c' := by
  obtain ⟨ops, hops, hrest⟩ := h.sq
  exact ⟨h.slot, h.born, hfed.trans h.fed, h.sound, ops, hsq.trans hops, hrest⟩

/-! ## Submitting and closing -/

/-- An entry is added behind the others. -/
theorem getSqe_eq_some {o : LoopOpts η} {io io' : LoopIo P υ} {sqe : Sqe}
    (h : getSqe o io sqe = some io') : io' = { io with sq := io.sq ++ [sqe] } := by
  unfold getSqe at h
  split_ifs at h
  exact (Option.some.inj h).symm

/-- A submission does not change the state. -/
theorem submitRecv_state (o : LoopOpts η) (io : LoopIo P υ) (c : Conn η ω) :
    (submitRecv o io c).2.1.state = c.state := by
  unfold submitRecv
  split_ifs
  · rfl
  · cases getSqe o io ⟨.recv, c.slot, c.born⟩ <;> rfl

/-- The receive that is submitted is the one that `recv_pending` then stands for. -/
theorem submitRecv_acts (o : LoopOpts η) (io : LoopIo P υ) {c : Conn η ω}
    (hhttp : c.state = .recv → c.http.isSome) :
    Acts [] io c (submitRecv o io c).1 (submitRecv o io c).2.1 := by
  unfold submitRecv
  split_ifs with hidle
  · exact .refl io c
  · push Not at hidle
    cases hsqe : getSqe o io ⟨.recv, c.slot, c.born⟩ with
    | none => exact .refl io c
    | some io' =>
      obtain rfl := getSqe_eq_some hsqe
      have hpending : c.recvPending = false := by simpa using hidle.1
      have hstate : c.state = .recv ∨ c.state = .wsRecv := by
        by_cases h : c.state = .recv
        · exact .inl h
        · exact .inr (hidle.2 h)
      refine ⟨rfl, rfl, (List.append_nil _).symm, fun h => ⟨?_, fun h _ => hhttp h, h.ws⟩,
        [⟨.recv, c.slot, c.born⟩], rfl, ?_, fun hlive => ⟨hlive, ?_⟩⟩
      · intro hsend
        rcases hstate with h | h
        · exact nomatch hsend.symm.trans h
        · exact nomatch hsend.symm.trans h
      · intro op hop
        rw [List.mem_singleton.mp hop]
        exact ⟨rfl, rfl⟩
      · rw [hpending]
        rfl

/-- A send is no receive. -/
theorem submitSend_acts (o : LoopOpts η) (io : LoopIo P υ) (c : Conn η ω) :
    Acts [] io c (submitSend o io c).1 (submitSend o io c).2.1 := by
  unfold submitSend
  split_ifs
  · exact .refl io c
  · cases hsqe : getSqe o io ⟨.send, c.slot, c.born⟩ with
    | none => exact .refl io c
    | some io' =>
      obtain rfl := getSqe_eq_some hsqe
      refine ⟨rfl, rfl, (List.append_nil _).symm, fun h => ⟨h.send, h.http, h.ws⟩,
        [⟨.send, c.slot, c.born⟩], rfl, ?_, fun hlive => ⟨hlive, Nat.zero_add _⟩⟩
      intro op hop
      rw [List.mem_singleton.mp hop]
      exact ⟨rfl, rfl⟩

/-- A connection begins to send when no receive is in flight, or on the stream. -/
theorem beginSendBuf_acts (o : LoopOpts η) (io : LoopIo P υ) {c : Conn η ω} (buf : Bytes)
    {st : ConnState} (hlive : c.state ≠ .free) (hsend : st = .send → c.recvPending = false)
    (hws : st = .wsRecv ∨ st = .wsSend → c.ws.isSome) (hrecv : st ≠ .recv) :
    Acts [] io c (beginSendBuf o io c buf st).1 (beginSendBuf o io c buf st).2.1 :=
  let c' : Conn η ω := { c with sendBuf := some buf, sendOff := 0, state := st }
  have hconn : Acts [] io c io c' :=
    Acts.of_conn io rfl rfl (fun _ => ⟨hsend, fun h => absurd h hrecv, hws⟩) fun _ => ⟨hlive, rfl⟩
  hconn.trans (submitSend_acts o io c')

/-- What is closed is free. -/
theorem closeConn_state (io : LoopIo P υ) (c : Conn η ω) : (closeConn io c).2.state = .free := by
  unfold closeConn
  split_ifs with h
  · exact h
  · rfl

/-- A free slot owes nothing: the receive in flight is forgotten, not cancelled. -/
theorem closeConn_acts (io : LoopIo P υ) (c : Conn η ω) :
    Acts [] io c (closeConn io c).1 (closeConn io c).2 := by
  unfold closeConn
  split_ifs with h
  · exact .refl io c
  · have hclosed : ∀ (io' : LoopIo P υ) (c' : Conn η ω), io'.sq = io.sq → io'.fed = io.fed →
        c'.slot = c.slot → c'.born = c.born → c'.state = .free → Acts [] io c io' c' :=
      fun io' c' hsq hfed hslot hborn hfree =>
        (Acts.of_conn io hslot hborn (fun _ => ⟨by simp [hfree], by simp [hfree], by simp [hfree]⟩)
          fun hlive => absurd hfree hlive).to_world hsq hfed
    cases c.fd with
    | none => exact hclosed _ _ rfl rfl rfl rfl rfl
    | some fd => exact hclosed _ _ rfl rfl rfl rfl rfl

/-- A handler acts as it did when its connection is closed in the end. -/
theorem closeOnError_acts {new : List (ℕ × Bytes)} {io : LoopIo P υ} {c : Conn η ω}
    {r : LoopIo P υ × Conn η ω × ℤ} (h : Acts new io c r.1 r.2.1) :
    Acts new io c (closeOnError r).1 (closeOnError r).2 := by
  unfold closeOnError
  split_ifs
  · have hclosed := h.trans (closeConn_acts r.1 r.2.1)
    rwa [List.append_nil] at hclosed
  · exact h

/-! ## WebSocket connections -/

/-- Taking a message touches the hub only. -/
theorem takePending_io (io : LoopIo P υ) (slot : ℕ) :
    (takePending io slot).1.sq = io.sq ∧ (takePending io slot).1.fed = io.fed := by
  unfold takePending
  cases io.world.hub <;> exact ⟨rfl, rfl⟩

/-- A frame is sent on the stream. -/
theorem sendFrame_acts (o : LoopOpts η) (io : LoopIo P υ) {c : Conn η ω} (frame : Bytes)
    (hlive : c.state ≠ .free) (hws : c.ws.isSome) :
    Acts [] io c (sendFrame o io c frame).1 (sendFrame o io c frame).2.1 :=
  beginSendBuf_acts o io frame hlive nofun (fun _ => hws) nofun

/-- Another state of the library for a connection that has one. -/
theorem setWs_acts (io : LoopIo P υ) (c : Conn η ω) (ws : ω) :
    Acts [] io c io { c with ws := some ws } :=
  Acts.of_conn io rfl rfl (fun h => ⟨h.send, h.http, fun _ => rfl⟩) fun h => ⟨h, rfl⟩

/-- What the library has queued goes out as a frame. -/
theorem wsFlushOutput_acts (o : LoopOpts η) (env : LoopEnv η P υ ω) (io : LoopIo P υ)
    {c : Conn η ω} (hlive : c.state ≠ .free) :
    Acts [] io c (wsFlushOutput o env io c).1 (wsFlushOutput o env io c).2.1 := by
  unfold wsFlushOutput
  cases hws : c.ws with
  | none => exact .refl io c
  | some ws =>
    dsimp only
    split_ifs
    · exact .refl io c
    · exact setWs_acts io c _
    · exact setWs_acts io c _
    · exact (setWs_acts io c _).trans (sendFrame_acts o io _ hlive rfl)

/-- A send that is submitted does not change the state either. -/
theorem submitSend_state (o : LoopOpts η) (io : LoopIo P υ) (c : Conn η ω) :
    (submitSend o io c).2.1.state = c.state := by
  unfold submitSend
  split_ifs
  · rfl
  · cases getSqe o io ⟨.send, c.slot, c.born⟩ <;> rfl

/-- A connection that sends a frame is in one state. -/
theorem sendFrame_state (o : LoopOpts η) (io : LoopIo P υ) (c : Conn η ω) (frame : Bytes) :
    (sendFrame o io c frame).2.1.state = .wsSend :=
  submitSend_state o io _

/-- The connection stays where it was, or sends. -/
theorem wsFlushOutput_state (o : LoopOpts η) (env : LoopEnv η P υ ω) (io : LoopIo P υ)
    (c : Conn η ω) :
    (wsFlushOutput o env io c).2.1.state = c.state
      ∨ (wsFlushOutput o env io c).2.1.state = .wsSend := by
  unfold wsFlushOutput
  cases hws : c.ws with
  | none => exact .inl rfl
  | some ws =>
    dsimp only
    split_ifs
    · exact .inl rfl
    · exact .inl rfl
    · exact .inl rfl
    · exact .inr (sendFrame_state ..)

/-- A frame is reported as sent or as failed, and not as nothing to do. -/
theorem sendFrame_ne_zero (o : LoopOpts η) (io : LoopIo P υ) (c : Conn η ω) (frame : Bytes) :
    (sendFrame o io c frame).2.2 ≠ 0 := by
  unfold sendFrame
  dsimp only
  split_ifs <;> decide

/-- Where nothing waited to be sent, the connection is as it was. -/
theorem wsFlushOutput_zero {o : LoopOpts η} {env : LoopEnv η P υ ω} {io : LoopIo P υ}
    {c : Conn η ω} (h : (wsFlushOutput o env io c).2.2 = 0) :
    (wsFlushOutput o env io c).2.1.state = c.state := by
  unfold wsFlushOutput at h ⊢
  cases hws : c.ws with
  | none => rfl
  | some ws =>
    rw [hws] at h
    dsimp only at h ⊢
    split_ifs at h ⊢
    · rfl
    · rfl
    · exact nomatch h
    · exact absurd h (sendFrame_ne_zero o io _ _)

/-- A fan-out to one connection: first what is queued, then one message of the hub. -/
theorem wsTrySendPending_acts (o : LoopOpts η) (env : LoopEnv η P υ ω) (io : LoopIo P υ)
    {c : Conn η ω} (hlive : c.state ≠ .free) :
    Acts [] io c (wsTrySendPending o env io c).1 (wsTrySendPending o env io c).2.1 := by
  unfold wsTrySendPending
  split_ifs
  · exact .refl io c
  have hflush := wsFlushOutput_acts o env io hlive
  have hstate := @wsFlushOutput_zero η P υ ω o env io c
  generalize wsFlushOutput o env io c = r at hflush hstate ⊢
  obtain ⟨io₁, c₁, rc⟩ := r
  dsimp only at hflush hstate ⊢
  -- A frame that was queued has gone out, or failed to: no message is taken.
  by_cases hrc : rc = 0
  swap
  · rw [if_pos hrc]
    exact hflush
  rw [if_neg (by simpa using hrc)]
  have hlive₁ : c₁.state ≠ .free := by
    rw [hstate hrc]
    exact hlive
  obtain ⟨hsq, hfed⟩ := takePending_io io₁ c₁.slot
  generalize takePending io₁ c₁.slot = t at hsq hfed ⊢
  obtain ⟨io₂, taken, text⟩ := t
  dsimp only at hsq hfed ⊢
  -- The message is lost from here on if the library makes no frame of it.
  have htaken : Acts [] io c io₂ c₁ := hflush.to_world hsq hfed
  by_cases hone : taken ≠ 1
  · rw [if_pos hone]
    exact htaken
  rw [if_neg hone]
  cases c₁.ws.bind (env.ws.sendText · text) with
  | none => exact htaken
  | some ws =>
    dsimp only
    split_ifs
    · exact htaken.trans (setWs_acts io₂ c₁ _)
    · exact htaken.trans ((setWs_acts io₂ c₁ _).trans (sendFrame_acts o io₂ _ hlive₁ rfl))

/-- A fan-out leaves a connection where it was, or sends. -/
theorem wsTrySendPending_state (o : LoopOpts η) (env : LoopEnv η P υ ω) (io : LoopIo P υ)
    (c : Conn η ω) :
    (wsTrySendPending o env io c).2.1.state = c.state
      ∨ (wsTrySendPending o env io c).2.1.state = .wsSend := by
  unfold wsTrySendPending
  split_ifs
  · exact .inl rfl
  have hstate := wsFlushOutput_state o env io c
  generalize wsFlushOutput o env io c = r at hstate ⊢
  obtain ⟨io₁, c₁, rc⟩ := r
  dsimp only at hstate ⊢
  by_cases hrc : rc ≠ 0
  · rw [if_pos hrc]
    exact hstate
  rw [if_neg hrc]
  by_cases hone : (takePending io₁ c₁.slot).2.1 ≠ 1
  · rw [if_pos hone]
    exact hstate
  rw [if_neg hone]
  cases c₁.ws.bind (env.ws.sendText · (takePending io₁ c₁.slot).2.2) with
  | none => exact hstate
  | some ws =>
    dsimp only
    split_ifs
    · exact hstate
    · exact .inr (sendFrame_state ..)

/-- A slot of the fan-out. -/
theorem flushPending_acts (o : LoopOpts η) (env : LoopEnv η P υ ω) (io : LoopIo P υ)
    (c : Conn η ω) : Acts [] io c (flushPending o env io c).1 (flushPending o env io c).2 := by
  unfold flushPending
  split_ifs with h
  · exact wsTrySendPending_acts o env io (by rw [h.1]; decide)
  · exact .refl io c

/-- The promotion submits the first receive of the stream; the request has none in flight. -/
theorem promoteToWs_acts (o : LoopOpts η) (env : LoopEnv η P υ ω) (io : LoopIo P υ) {c : Conn η ω}
    (hstate : c.state = .send) :
    Acts [] io c (promoteToWs o env io c).1 (promoteToWs o env io c).2.1 := by
  have hfailed : Acts [] io c io { c with ws := none } :=
    Acts.of_conn io rfl rfl (fun h => ⟨h.send, h.http, by simp [hstate]⟩) fun h => ⟨h, rfl⟩
  unfold promoteToWs
  cases env.ws.create with
  | none => exact hfailed
  | some ws =>
    cases io.world.hub with
    | none => exact hfailed
    | some h =>
      dsimp only
      by_cases hsubscribed : (edgeWsHubSubscribe h c.slot).2 ≠ 0
      · rw [if_pos hsubscribed]
        exact hfailed
      rw [if_neg hsubscribed]
      let io' : LoopIo P υ :=
        { io with world := { io.world with hub := some (edgeWsHubSubscribe h c.slot).1 } }
      let c' : Conn η ω := { c with ws := some ws, keepWs := false, state := .wsRecv, http := none }
      -- The subscription is beside the connection; the first receive and the fan-out come behind it.
      have hconn : Acts [] io c io c' :=
        Acts.of_conn io rfl rfl (fun _ => ⟨nofun, nofun, fun _ => rfl⟩)
          fun _ => ⟨by rw [hstate]; decide, rfl⟩
      have hpromoted : Acts [] io c io' c' := hconn.to_world rfl rfl
      have hrecv := hpromoted.trans (submitRecv_acts o io' (show c'.state = .recv → _ from nofun))
      have hkept : (submitRecv o io' c').2.1.state = .wsRecv := submitRecv_state o io' c'
      generalize submitRecv o io' c' = r at hrecv hkept ⊢
      obtain ⟨io₁, c₁, rc⟩ := r
      dsimp only at hrecv hkept ⊢
      by_cases hrc : rc ≠ 0
      · rw [if_pos hrc]
        exact hrecv
      · rw [if_neg hrc]
        exact hrecv.trans (wsTrySendPending_acts o env io₁ (by rw [hkept]; decide))

/-- A frame that is out: back to receiving, with a fan-out before it. Any other send ends its connection. -/
theorem handleSendComplete_acts (o : LoopOpts η) (env : LoopEnv η P υ ω) (io : LoopIo P υ)
    (c : Conn η ω) :
    Acts [] io c (handleSendComplete o env io c).1 (handleSendComplete o env io c).2.1 := by
  unfold handleSendComplete
  by_cases hpromote : c.state = .send ∧ c.keepWs
  · rw [if_pos hpromote]
    exact promoteToWs_acts o env io hpromote.1
  rw [if_neg hpromote]
  by_cases hstate : c.state = .wsSend
  · rw [if_pos hstate]
    let c' : Conn η ω := { c with state := .wsRecv }
    have hconn : Acts [] io c io c' :=
      Acts.of_conn io rfl rfl (fun h => ⟨nofun, nofun, fun _ => h.ws (.inr hstate)⟩)
        fun _ => ⟨by rw [hstate]; decide, rfl⟩
    have hsend := hconn.trans (wsTrySendPending_acts o env io (show c'.state ≠ .free from nofun))
    have hkept := wsTrySendPending_state o env io c'
    generalize wsTrySendPending o env io c' = r at hsend hkept ⊢
    obtain ⟨io₁, c₁, rc⟩ := r
    dsimp only at hsend hkept ⊢
    -- A receive is submitted when none is in flight, so `recv_pending` goes from 0 to 1.
    by_cases hrc : rc = 0 ∧ !c₁.recvPending
    · rw [if_pos hrc]
      refine hsend.trans (submitRecv_acts o io₁ fun h => ?_)
      rcases hkept with hkept | hkept
      · exact nomatch h.symm.trans hkept
      · exact nomatch h.symm.trans hkept
    · rw [if_neg hrc]
      exact hsend
  · rw [if_neg hstate]
    exact closeConn_acts io c

/-! ## Handlers of received bytes -/

/-- The bytes go to the WebSocket library, once. -/
theorem handleWsRecv_acts (o : LoopOpts η) (env : LoopEnv η P υ ω) (io : LoopIo P υ) {c : Conn η ω}
    (data : Bytes) (hlive : c.state ≠ .free) (hws : c.ws.isSome) :
    Acts [(c.born, data)] io c (handleWsRecv o env io c data).1 (handleWsRecv o env io c data).2.1 := by
  unfold handleWsRecv
  obtain ⟨ws, hws⟩ := Option.isSome_iff_exists.mp hws
  rw [hws]
  dsimp only
  generalize wsEvents env (env.ws.feedInput ws data).1 (env.ws.feedInput ws data).2 = r
  let io' := LoopIo.count { io with fed := io.fed ++ [(c.born, data)] }
    fun m => { m with bytesIn := m.bytesIn + UInt64.ofNat data.length }
  let c' : Conn η ω := { c with ws := some r.1 }
  have hfed : Acts [(c.born, data)] io c io' c' := by
    obtain ⟨hslot, hborn, -, hsound, hsq⟩ := setWs_acts io c r.1
    exact ⟨hslot, hborn, rfl, hsound, hsq⟩
  by_cases hrc : r.2 ≠ 0
  · rw [if_pos hrc]
    exact hfed
  rw [if_neg hrc]
  have hflush := hfed.trans (wsFlushOutput_acts o env io' (show c'.state ≠ .free from hlive))
  split_ifs
  · exact hflush
  · exact hflush
  · exact hfed

/-- The reply to an empty read. -/
theorem beginBadRequestPlain_acts (o : LoopOpts η) (io : LoopIo P υ) {c : Conn η ω}
    (hlive : c.state ≠ .free) (hpending : c.recvPending = false) :
    Acts [] io c (beginBadRequestPlain o io c).1 (beginBadRequestPlain o io c).2.1 := by
  unfold beginBadRequestPlain
  split_ifs
  · exact .refl io c
  · let io' := io.count fun m =>
      { m with requests := m.requests + 1, responses4xx := m.responses4xx + 1 }
    have hsend : Acts [] io' c (beginSendBuf o io' c badRequest .send).1
        (beginSendBuf o io' c badRequest .send).2.1 :=
      beginSendBuf_acts o io' badRequest hlive (fun _ => hpending) (by simp) (by simp)
    exact hsend.of_world rfl rfl

/-- The bytes go to the HTTP connection, once, if there are any and there is one. -/
theorem handleHttpBytes_acts (o : LoopOpts η) (env : LoopEnv η P υ ω) (io : LoopIo P υ)
    {c : Conn η ω} (data : Bytes) (hlive : c.state ≠ .free) (hpending : c.recvPending = false) :
    Acts (if data = [] ∨ c.http.isNone then [] else [(c.born, data)]) io c
      (handleHttpBytes o env io c data).1 (handleHttpBytes o env io c data).2.1 := by
  unfold handleHttpBytes
  by_cases hdata : data = []
  · rw [if_pos hdata, if_pos (.inl hdata)]
    exact beginBadRequestPlain_acts o io hlive hpending
  rw [if_neg hdata]
  cases hhttp : c.http with
  | none =>
    rw [if_pos (.inr rfl)]
    exact .refl io c
  | some http =>
    rw [if_neg (by simp [hdata])]
    dsimp only
    generalize edgeHttp1ServeFeed env.serve http io.world data o.sendCap = served
    let io' : LoopIo P υ := { world := served.world, sq := io.sq, fed := io.fed ++ [(c.born, data)] }
    let c' : Conn η ω := { c with http := some served.serve }
    have hfed : Acts [(c.born, data)] io c io' c' :=
      ⟨rfl, rfl, rfl, fun h => ⟨h.send, fun _ _ => rfl, h.ws⟩, [], (List.append_nil _).symm,
        fun _ h => absurd h List.not_mem_nil, fun h => ⟨h, Nat.zero_add _⟩⟩
    by_cases hfailed : served.ret < 0
    · rw [if_pos hfailed]
      exact hfed
    rw [if_neg hfailed]
    -- The request is incomplete and the next receive is submitted, or it is answered.
    by_cases hwait : served.ret = 0
    · rw [if_pos hwait]
      exact hfed.trans (submitRecv_acts o io' (show c'.state = .recv → _ from fun _ => rfl))
    rw [if_neg hwait]
    let c'' : Conn η ω := { c' with keepWs := served.serve.wsUpgrade }
    have hkeep : Acts [] io' c' io' c'' :=
      Acts.of_conn io' rfl rfl (fun h => ⟨h.send, h.http, h.ws⟩) fun h => ⟨h, rfl⟩
    have hbegin : Acts [] io' c'' (beginSendBuf o io' c'' served.out .send).1
        (beginSendBuf o io' c'' served.out .send).2.1 :=
      beginSendBuf_acts o io' served.out hlive (fun _ => hpending) (by simp) (by simp)
    have hsend := hfed.trans (hkeep.trans hbegin)
    generalize beginSendBuf o io' c'' served.out .send = r at hsend ⊢
    split_ifs <;> exact hsend

end Edgehost
