import Edgehost.Host.LoopInvariants

/-!
# Connections do not meet

Every connection has its own parser, its own answer and its own principal, but one loop serves them all,
and a fan-out goes over all slots. A turn of the loop over plain TCP that is not about a connection leaves
it alone.

* `Undisturbed`            — what other turns leave of a connection: all of it, but for what a connection
  of the stream has to send.
* `loopStep_undisturbed`   — one turn.
* `undisturbed_of_others`  — any run in which no operation on its slot completes.
-/

namespace Edgehost

variable {η P υ ω : Type*}

/-- What the turns of others leave of a connection. -/
structure Undisturbed (c c' : Conn η ω) : Prop where
  slot : c'.slot = c.slot
  born : c'.born = c.born
  fd : c'.fd = c.fd
  http : c'.http = c.http
  keepWs : c'.keepWs = c.keepWs
  recvPending : c'.recvPending = c.recvPending
  streams : c'.state.streams = c.state.streams
  /-- Outside the stream nothing changes at all. -/
  same : c.state.streams = false → c' = c

/-- Nothing has happened. -/
theorem Undisturbed.refl (c : Conn η ω) : Undisturbed c c :=
  ⟨rfl, rfl, rfl, rfl, rfl, rfl, rfl, fun _ => rfl⟩

/-- One turn after the other. -/
theorem Undisturbed.trans {c c₁ c₂ : Conn η ω} (h : Undisturbed c c₁) (h' : Undisturbed c₁ c₂) :
    Undisturbed c c₂ :=
  ⟨h'.slot.trans h.slot, h'.born.trans h.born, h'.fd.trans h.fd, h'.http.trans h.http,
    h'.keepWs.trans h.keepWs, h'.recvPending.trans h.recvPending, h'.streams.trans h.streams,
    fun hout => (h'.same (h.streams.trans hout)).trans (h.same hout)⟩

/-- A live connection stays live: on the stream its state is one of two, elsewhere it is the same. -/
theorem Undisturbed.live {c c' : Conn η ω} (h : Undisturbed c c') (hlive : c.state ≠ .free) :
    c'.state ≠ .free := by
  cases hstreams : c.state.streams with
  | false =>
    rw [h.same hstreams]
    exact hlive
  | true =>
    intro hfree
    have hout := h.streams
    rw [hfree, hstreams] at hout
    exact Bool.false_ne_true hout

/-! ## A fan-out -/

/-- A connection of the stream with something else to send. -/
theorem Undisturbed.sending {c : Conn η ω} (hstreams : c.state.streams) {st : ConnState}
    (hst : st.streams) (ws : Option ω) (sendPending : Bool) (sendBuf : Option Bytes) (sendOff : ℕ) :
    Undisturbed c { c with state := st, ws, sendPending, sendBuf, sendOff } :=
  ⟨rfl, rfl, rfl, rfl, rfl, rfl, hst.trans hstreams.symm, fun hout => absurd hstreams (by simp [hout])⟩

/-- A send that is submitted sets its flag. -/
theorem submitSend_undisturbed (o : LoopOpts η) (io : LoopIo P υ) {c : Conn η ω}
    (hstreams : c.state.streams) : Undisturbed c (submitSend o io c).2.1 := by
  unfold submitSend
  split_ifs
  · exact .refl c
  · cases getSqe o io ⟨.send, c.slot, c.born⟩ with
    | none => exact .refl c
    | some io' => exact .sending hstreams hstreams c.ws true c.sendBuf c.sendOff

/-- A frame of the stream. -/
theorem sendFrame_undisturbed (o : LoopOpts η) (io : LoopIo P υ) {c : Conn η ω} (frame : Bytes)
    (hstreams : c.state.streams) : Undisturbed c (sendFrame o io c frame).2.1 :=
  let c' : Conn η ω := { c with sendBuf := some frame, sendOff := 0, state := .wsSend }
  have hframe : Undisturbed c c' := .sending hstreams rfl c.ws c.sendPending (some frame) 0
  hframe.trans (submitSend_undisturbed o io (c := c') rfl)

/-- What the library has queued. -/
theorem wsFlushOutput_undisturbed (o : LoopOpts η) (env : LoopEnv η P υ ω) (io : LoopIo P υ)
    {c : Conn η ω} (hstreams : c.state.streams) : Undisturbed c (wsFlushOutput o env io c).2.1 := by
  unfold wsFlushOutput
  cases c.ws with
  | none => exact .refl c
  | some ws =>
    have hlib : ∀ ws' : ω, Undisturbed c { c with ws := some ws' } := fun ws' =>
      .sending hstreams hstreams (some ws') c.sendPending c.sendBuf c.sendOff
    dsimp only
    split_ifs
    · exact .refl c
    · exact hlib _
    · exact hlib _
    · exact (hlib _).trans (sendFrame_undisturbed o io _ hstreams)

/-- A fan-out to one connection of the stream. -/
theorem wsTrySendPending_undisturbed (o : LoopOpts η) (env : LoopEnv η P υ ω) (io : LoopIo P υ)
    {c : Conn η ω} (hstreams : c.state.streams) : Undisturbed c (wsTrySendPending o env io c).2.1 := by
  unfold wsTrySendPending
  split_ifs
  · exact .refl c
  have hflush := wsFlushOutput_undisturbed o env io hstreams
  have hstreams₁ := streams_of_state (wsFlushOutput_state o env io c) hstreams
  generalize wsFlushOutput o env io c = r at hflush hstreams₁ ⊢
  obtain ⟨io₁, c₁, rc⟩ := r
  dsimp only at hflush hstreams₁ ⊢
  by_cases hrc : rc ≠ 0
  · rw [if_pos hrc]
    exact hflush
  rw [if_neg hrc]
  generalize takePending io₁ c₁.slot = t
  obtain ⟨io₂, taken, text⟩ := t
  dsimp only
  by_cases hone : taken ≠ 1
  · rw [if_pos hone]
    exact hflush
  rw [if_neg hone]
  cases c₁.ws.bind (env.ws.sendText · text) with
  | none => exact hflush
  | some ws =>
    have hlib : ∀ ws' : ω, Undisturbed c { c₁ with ws := some ws' } := fun ws' =>
      hflush.trans (.sending hstreams₁ hstreams₁ (some ws') c₁.sendPending c₁.sendBuf c₁.sendOff)
    dsimp only
    split_ifs
    · exact hlib _
    · exact (hlib _).trans (sendFrame_undisturbed o io₂ _ hstreams₁)

/-- The fan-out passes over a connection outside the stream. -/
theorem flushPending_undisturbed (o : LoopOpts η) (env : LoopEnv η P υ ω) (io : LoopIo P υ)
    (c : Conn η ω) : Undisturbed c (flushPending o env io c).2 := by
  unfold flushPending
  split_ifs with h
  · exact wsTrySendPending_undisturbed o env io (by rw [h.1]; rfl)
  · exact .refl c

/-- The slot holds the connection, undisturbed. -/
def Holds (conns : List (Conn η ω)) (j : ℕ) (c : Conn η ω) : Prop :=
  ∃ c', conns[j]? = some c' ∧ Undisturbed c c'

/-- The fan-out over all slots comes to each of them once. -/
theorem wsFlushAllPending_holds (o : LoopOpts η) (env : LoopEnv η P υ ω) (cs : List (Conn η ω))
    (io : LoopIo P υ) {j : ℕ} {c : Conn η ω} (hc : cs[j]? = some c) :
    Holds (wsFlushAllPending o env io cs).2 j c := by
  induction cs generalizing j io with
  | nil => cases hc
  | cons d cs ih =>
    cases j with
    | zero =>
      obtain rfl := Option.some.inj hc
      exact ⟨_, rfl, flushPending_undisturbed o env io d⟩
    | succ j => exact ih _ hc

/-- The fan-out of a server. -/
theorem flushAll_holds (o : LoopOpts η) (env : LoopEnv η P υ ω) {srv : Server η P υ ω} {j : ℕ}
    {c : Conn η ω} (h : Holds srv.conns j c) : Holds (flushAll o env srv).conns j c := by
  obtain ⟨c', hc', hquiet⟩ := h
  obtain ⟨c'', hc'', hquiet'⟩ := wsFlushAllPending_holds o env srv.conns srv.io hc'
  exact ⟨c'', hc'', hquiet.trans hquiet'⟩

/-! ## The turns of others -/

/-- Another slot is written. -/
theorem Holds.put {srv : Server η P υ ω} {j : ℕ} {c : Conn η ω} (h : Holds srv.conns j c)
    {r : LoopIo P υ × Conn η ω} (hslot : r.2.slot ≠ j) : Holds (srv.put r).conns j c := by
  obtain ⟨c', hc', hquiet⟩ := h
  refine ⟨c', ?_, hquiet⟩
  unfold Server.put
  rwa [List.getElem?_set_ne hslot]

/-- A connection is accepted into a free slot. -/
theorem acceptOne_holds (o : LoopOpts η) (env : LoopEnv η P υ ω) {srv : Server η P υ ω} (clientFd : ℕ)
    {j : ℕ} {c : Conn η ω} (hc : srv.conns[j]? = some c) (hlive : c.state ≠ .free) :
    Holds (acceptOne o env srv clientFd).conns j c := by
  have hsame : Holds srv.conns j c := ⟨c, hc, .refl c⟩
  unfold acceptOne
  split_ifs
  · exact hsame
  cases hslot : freeSlot srv.conns with
  | none => exact hsame
  | some i =>
    obtain ⟨hlen, hfree, -⟩ := List.findIdx?_eq_some_iff_getElem.mp hslot
    -- The slot that is taken was free, and this one is not.
    have hne : i ≠ j := by
      rintro rfl
      rw [List.getElem?_eq_getElem hlen] at hc
      rw [Option.some.inj hc] at hfree
      exact hlive (of_decide_eq_true hfree)
    have hset : ∀ d : Conn η ω, Holds (srv.conns.set i d) j c := fun d =>
      ⟨c, by rwa [List.getElem?_set_ne hne], .refl c⟩
    dsimp only
    split_ifs <;> exact hset _

/-- A send of another connection completes. -/
theorem onSend_holds (o : LoopOpts η) (env : LoopEnv η P υ ω) {srv : Server η P υ ω} {d : Conn η ω}
    (res : Except ℤ ℕ) {j : ℕ} {c : Conn η ω} (h : Holds srv.conns j c) (hne : d.slot ≠ j) :
    Holds (onSend o env srv d res).conns j c := by
  have hI := slotted_loopInv (P := P) (υ := υ) (ω := ω) o
  unfold onSend
  cases res with
  | error err =>
    refine h.put ?_
    rw [(closeConn_kept hI srv.io { d with sendPending := false }).slot]
    exact hne
  | ok n =>
    dsimp only
    generalize srv.io.count _ = io
    let d' : Conn η ω := { d with sendPending := false, sendOff := d.sendOff + n }
    split_ifs
    · refine h.put ?_
      rw [(closeOnError_kept hI (handleSendComplete_kept hI env io d')).slot]
      exact hne
    · refine h.put ?_
      rw [(closeOnError_kept hI (submitSend_kept hI io d')).slot]
      exact hne

/-- A receive of another connection completes; its request may be announced to the stream. -/
theorem onRecv_holds (o : LoopOpts η) (env : LoopEnv η P υ ω) {srv : Server η P υ ω} {d : Conn η ω}
    (res : Except ℤ Bytes) {j : ℕ} {c : Conn η ω} (h : Holds srv.conns j c) (hne : d.slot ≠ j) :
    Holds (onRecv o env srv d res).conns j c := by
  -- The handlers leave the other connection in its slot, so what is written is not this one's.
  have hI := slotted_loopInv (P := P) (υ := υ) (ω := ω) o
  let d₁ : Conn η ω := { d with recvPending := false }
  have hclose : Holds (srv.put (closeConn srv.io d₁)).conns j c := by
    refine h.put ?_
    rw [(closeConn_kept hI srv.io d₁).slot]
    exact hne
  unfold onRecv
  split
  · exact hclose
  · exact hclose
  · rename_i data _ hws
    have hfed := handleWsRecv_kept hI env srv.io data
      (show d₁.state.streams by rw [show d₁.state = .wsRecv from hws]; rfl)
    dsimp only
    generalize handleWsRecv o env srv.io d₁ data = r at hfed ⊢
    obtain ⟨io, d', rc⟩ := r
    dsimp only at hfed ⊢
    have hne' : d'.slot ≠ j := hfed.slot ▸ hne
    split_ifs
    · exact h.put (by rw [(closeConn_kept hI io d').slot]; exact hne')
    · exact h.put (by rw [(closeOnError_kept hI (submitRecv_kept hI io d')).slot]; exact hne')
    · exact h.put hne'
  · exact hclose
  · rename_i data hrecv
    have hfed := handleHttpBytes_kept hI env srv.io data (show d₁.state = .recv from hrecv)
      fun _ _ => trivial
    dsimp only
    generalize handleHttpBytes o env srv.io d₁ data = r at hfed ⊢
    obtain ⟨io, d', rc, flush⟩ := r
    have hput : Holds (srv.put (closeOnError (io, d', rc))).conns j c := by
      refine h.put ?_
      rw [(closeOnError_kept (r := (io, d', rc)) hI hfed).slot]
      exact hne
    -- Only now does the turn come to this connection at all, by the fan-out.
    cases flush with
    | true => exact flushAll_holds o env hput
    | false => exact hput
  · exact h

/-- A turn without a completion: one fan-out or two. -/
theorem onTimeout_holds (o : LoopOpts η) (env : LoopEnv η P υ ω) {srv : Server η P υ ω} {j : ℕ}
    {c : Conn η ω} (h : Holds srv.conns j c) : Holds (onTimeout o env srv).conns j c := by
  have hflush := flushAll_holds o env h
  unfold onTimeout
  dsimp only
  generalize flushAll o env srv = srv' at hflush ⊢
  cases srv'.io.world.store with
  | none => exact hflush
  | some st =>
    dsimp only
    split_ifs
    · exact hflush
    · exact flushAll_holds o env hflush
    · exact hflush

/-- **A turn of the loop that is not about a connection leaves it alone.** -/
theorem loopStep_undisturbed (o : LoopOpts η) {srv : Server η P υ ω} (hslotted : Slotted srv.conns)
    (ev : LoopEvent η P υ ω) {j : ℕ} {c : Conn η ω} (hc : srv.conns[j]? = some c)
    (hlive : c.state ≠ .free) (hother : ∀ sqe, ev.sqe = some sqe → sqe.slot ≠ j) :
    Holds (loopStep o srv ev).conns j c := by
  have hsame : Holds srv.conns j c := ⟨c, hc, .refl c⟩
  -- A completion for another slot hands its handler another connection.
  have hat : ∀ (srv' : Server η P υ ω) (slot : ℕ) (f : Conn η ω → Server η P υ ω), slot ≠ j →
      srv'.conns = srv.conns → (∀ d, d.slot ≠ j → Holds (f d).conns j c) →
        Holds (atSlot srv' slot f).conns j c := by
    intro srv' slot f hne hconns hf
    unfold atSlot
    rw [hconns]
    cases hd : srv.conns[slot]? with
    | none => rwa [hconns]
    | some d =>
      dsimp only
      split_ifs
      · rwa [hconns]
      · exact hf d (hslotted slot d hd ▸ hne)
  cases ev with
  | accepted env res taken =>
    unfold loopStep completeOp
    dsimp only
    split_ifs
    · exact hsame
    · unfold ioUringSubmit onAccept
      dsimp only
      rw [(submitAccept_world o _).2]
      cases res with
      | error err => exact hsame
      | ok fd => exact acceptOne_holds o env fd hc hlive
  | received env slot owner res taken =>
    have hne : slot ≠ j := hother ⟨.recv, slot, owner⟩ rfl
    unfold loopStep completeOp
    dsimp only
    split_ifs
    · exact hsame
    · exact hat _ slot _ hne rfl fun d hd => onRecv_holds o env res hsame hd
  | sent env slot owner res taken =>
    have hne : slot ≠ j := hother ⟨.send, slot, owner⟩ rfl
    unfold loopStep completeOp
    dsimp only
    split_ifs
    · exact hsame
    · exact hat _ slot _ hne rfl fun d hd => onSend_holds o env res hsame hd
  | timeout env taken =>
    have hstep : loopStep o srv (.timeout env taken)
        = if shouldStop o srv then srv else ioUringSubmit (onTimeout o env srv) taken := rfl
    rw [hstep]
    split_ifs
    · exact hsame
    · exact onTimeout_holds o env hsame

/-! ## Runs -/

/-- **Connections do not meet**: from any state that the loop over plain TCP reaches, however long it runs
and whatever its other clients send, break off or are told, a connection on whose slot no operation
completes keeps its socket, its parser and its principal; outside the stream nothing of it changes at
all. -/
theorem undisturbed_of_others (o : LoopOpts η) (n : ℕ) (world : ServeWorld P υ)
    (before evs : List (LoopEvent η P υ ω)) {j : ℕ} {c : Conn η ω}
    (hc : (runFrom (loopStep o) (loopStart n world) before).conns[j]? = some c) (hlive : c.state ≠ .free)
    (hothers : ∀ ev ∈ evs, ∀ sqe, ev.sqe = some sqe → sqe.slot ≠ j) :
    Always (loopStep o) (fun srv => Holds srv.conns j c)
      (runFrom (loopStep o) (loopStart n world) before) evs := by
  have hslotted : Slotted (runFrom (loopStep o) (loopStart n world) before).conns :=
    ((slotted_loopInv o).always (loopStart_slotted n world) before).last
  have hholds : Holds (runFrom (loopStep o) (loopStart n world) before).conns j c := ⟨c, hc, .refl c⟩
  generalize runFrom (loopStep o) (loopStart n world) before = srv at hslotted hholds
  clear hc
  induction evs generalizing srv with
  | nil => exact hholds
  | cons ev evs ih =>
    obtain ⟨c', hc', hquiet⟩ := hholds
    obtain ⟨c'', hc'', hquiet'⟩ := loopStep_undisturbed o hslotted ev hc' (hquiet.live hlive)
      (hothers ev List.mem_cons_self)
    have hslotted' := (slotted_loopInv o).loopStep_kept ev (permits_any o srv ev) hslotted
    exact ⟨⟨c', hc', hquiet⟩, ih (fun e he => hothers e (List.mem_cons_of_mem ev he)) _ hslotted'
      ⟨c'', hc'', hquiet.trans hquiet'⟩⟩

/-- Another client of the loop, in the second slot. -/
def otherRun : List (LoopEvent Unit Unit Unit Bytes) :=
  [.received streamEnv 1 1 (.ok handshake) 9, .sent streamEnv 1 1 (.ok 129) 9, .timeout streamEnv 9]

/-- Two clients have connected, and only the second goes on. -/
theorem undisturbed_of_others_stream : ∃ c : Conn Unit Bytes, c.state = .recv ∧
    Always (loopStep streamOpts) (fun srv => Holds srv.conns 0 c)
      (runFrom (loopStep streamOpts) (loopStart 2 streamWorld)
        [.accepted streamEnv (.ok 5) 9, .accepted streamEnv (.ok 6) 9]) otherRun := by
  have hslot : (runFrom (loopStep streamOpts) (loopStart 2 streamWorld)
      [.accepted streamEnv (.ok 5) 9, .accepted streamEnv (.ok 6) 9]).conns[0]?.map (·.state)
        = some .recv := by
    decide +kernel
  obtain ⟨c, hc, hstate⟩ := Option.map_eq_some_iff.mp hslot
  have hothers : ∀ ev ∈ otherRun, ∀ sqe, ev.sqe = some sqe → sqe.slot ≠ 0 := by
    intro ev hev sqe hsqe
    simp only [otherRun, List.mem_cons, List.not_mem_nil, or_false] at hev
    rcases hev with rfl | rfl | rfl
    · obtain rfl := Option.some.inj hsqe
      exact Nat.one_ne_zero
    · obtain rfl := Option.some.inj hsqe
      exact Nat.one_ne_zero
    · cases hsqe
  exact ⟨c, hstate, undisturbed_of_others streamOpts 2 streamWorld _ otherRun hc
    (by rw [hstate]; decide) hothers⟩

end Edgehost
