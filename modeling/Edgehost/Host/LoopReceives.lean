import Edgehost.Host.LoopRuns

/-!
# Receives of the event loop

Whether `recv_pending` tells what is in flight, and what becomes of every completed receive.

* `accounted_of_ready` — in a run that accepts into fresh slots only, and in which no receive completes
  while its connection sends a frame, `recv_pending` is exact and every completed receive is acted on.
-/

namespace Edgehost

variable {η P υ ω : Type*}

/-! ## The count of the receives -/

/-- A receive of a connection. -/
def isRecvOf (c : Conn η ω) (op : Sqe) : Bool := op = ⟨.recv, c.slot, c.born⟩

/-- `recv_pending` counts the receives of every connection, of which there is one at most. -/
structure Accounted (conns : List (Conn η ω)) (ops : List Sqe) : Prop where
  attributed : Attributed conns ops
  sound : ∀ (i : ℕ) (c : Conn η ω), conns[i]? = some c → Sound c
  count : ∀ (i : ℕ) (c : Conn η ω), conns[i]? = some c → c.state ≠ .free →
    ops.countP (isRecvOf c) = c.recvPending.toNat

/-- What another connection in slot `i` asks for. -/
theorem Accounted.set {conns : List (Conn η ω)} {ops ops' : List Sqe} {i : ℕ} {c : Conn η ω}
    (h : Accounted conns ops) (hattr : Attributed (conns.set i c) ops') (hsound : Sound c)
    (hcount : c.state ≠ .free → ops'.countP (isRecvOf c) = c.recvPending.toNat)
    (hother : ∀ d : Conn η ω, d.slot ≠ i → ops'.countP (isRecvOf d) = ops.countP (isRecvOf d)) :
    Accounted (conns.set i c) ops' := by
  refine ⟨hattr, fun j d hd => ?_, fun j d hd hlive => ?_⟩
  · by_cases hij : i = j
    · obtain rfl := hij
      obtain ⟨hlen, rfl⟩ := List.getElem?_eq_some_iff.mp hd
      rwa [List.getElem_set_self]
    · rw [List.getElem?_set_ne hij] at hd
      exact h.sound j d hd
  · by_cases hij : i = j
    · obtain rfl := hij
      obtain ⟨hlen, rfl⟩ := List.getElem?_eq_some_iff.mp hd
      rw [List.getElem_set_self] at hlive ⊢
      exact hcount hlive
    · rw [List.getElem?_set_ne hij] at hd
      have hslot : d.slot = j := h.attributed.slotted j d hd
      rw [hother d fun hi => hij (hi.symm.trans hslot)]
      exact h.count j d hd hlive

/-- Without an operation on its slot a connection has no receive. -/
theorem countP_isRecvOf_eq_zero {c : Conn η ω} {ops : List Sqe}
    (h : ∀ op ∈ ops, op.op ≠ .accept → op.slot ≠ c.slot) : ops.countP (isRecvOf c) = 0 := by
  rw [List.countP_eq_zero]
  intro op hop hrecv
  obtain rfl : op = ⟨.recv, c.slot, c.born⟩ := of_decide_eq_true hrecv
  exact h _ hop nofun rfl

theorem isRecvOf_eq_isRecv {c : Conn η ω} {op : Sqe} (h : op.slot = c.slot ∧ op.owner = c.born) :
    isRecvOf c op = isRecv op := by
  obtain ⟨op, slot, owner⟩ := op
  obtain ⟨rfl, rfl⟩ := h
  cases op <;> simp [isRecvOf, isRecv]

/-- **No step of a connection loses count of its receives.** -/
theorem accounted_stable : Stable P υ (Accounted (η := η) (ω := ω)) where
  slotted _ _ h := h.attributed.slotted
  perm conns ops ops' h hperm :=
    ⟨attributed_stable (P := P) (υ := υ) |>.perm _ _ _ h.attributed hperm, h.sound,
      fun i c hc hlive => (hperm.countP_eq _).trans (h.count i c hc hlive)⟩
  accept conns ops h :=
    ⟨attributed_stable (P := P) (υ := υ) |>.accept _ _ h.attributed, h.sound,
      fun i c hc hlive => by
        rw [List.countP_cons_of_neg (by simp [isRecvOf])]
        exact h.count i c hc hlive⟩
  put conns rest new io io' c c' h hc hacts := by
    have hattr := attributed_stable.put conns rest new io io' c c' h.attributed hc hacts
    obtain ⟨added, hsq, hown, hlive⟩ := hacts.sq
    have hsame : isRecvOf c' = isRecvOf c := by
      unfold isRecvOf
      rw [hacts.slot, hacts.born]
    refine h.set hattr (hacts.sound (h.sound _ c hc)) (fun hlive' => ?_) fun d hd => ?_
    · obtain ⟨hbefore, hcount⟩ := hlive hlive'
      have hold := h.count _ c hc hbefore
      have hadded : added.countP (isRecvOf c) = added.countP isRecv :=
        List.countP_congr fun op hop => by rw [isRecvOf_eq_isRecv (hown op hop)]
      rw [List.countP_append] at hold
      rw [hsame, hsq, List.countP_append, List.countP_append, hadded]
      omega
    · have hnone : added.countP (isRecvOf d) = 0 :=
        countP_isRecvOf_eq_zero fun op hop _ hslot => hd (hslot.symm.trans (hown op hop).1)
      rw [hsq, List.countP_append, List.countP_append, List.countP_append, hnone, Nat.add_zero]
  fresh conns ops i c h hnone hlen hslot hpending hstate := by
    have hattr := attributed_stable (P := P) (υ := υ) |>.fresh conns ops i c h.attributed hnone hlen
      hslot hpending hstate
    refine h.set hattr ⟨fun _ => hpending, fun _ h => ?_, fun h => ?_⟩ (fun _ => ?_) fun _ _ => rfl
    · rw [hpending] at h
      exact nomatch h
    · rw [hstate] at h
      exact absurd h (by decide)
    · rw [hpending]
      exact countP_isRecvOf_eq_zero fun op hop hne => hslot ▸ hnone op hop hne

/-! ## Completed receives -/

/-- The operation that completes is taken from those under way. -/
theorem countP_erase (srv : Server η P υ ω) {sqe : Sqe} (hmem : sqe ∈ srv.inFlight) (p : Sqe → Bool) :
    (srv.io.sq ++ srv.inFlight.erase sqe).countP p + (if p sqe then 1 else 0) = srv.ops.countP p := by
  rw [Server.ops, List.countP_append, List.countP_append, (List.perm_cons_erase hmem).countP_eq,
    List.countP_cons, Nat.add_assoc]

/-- A completion that is no receive leaves the count. -/
theorem Accounted.erase {srv : Server η P υ ω} (h : Accounted srv.conns srv.ops) {sqe : Sqe}
    (hmem : sqe ∈ srv.inFlight) (hop : sqe.op ≠ .recv) :
    Accounted srv.conns (srv.io.sq ++ srv.inFlight.erase sqe) := by
  refine ⟨h.attributed.mono (erase_subset srv sqe), h.sound, fun i c hc hlive => ?_⟩
  have hnot : isRecvOf c sqe = false := by
    obtain ⟨op, slot, owner⟩ := sqe
    cases op <;> simp_all [isRecvOf]
  have hcount := countP_erase srv hmem (isRecvOf c)
  rw [hnot] at hcount
  exact hcount.trans (h.count i c hc hlive)

/-- The connection that a receive completes for waits for it, and for no other one. -/
theorem Accounted.taker {srv : Server η P υ ω} (h : Accounted srv.conns srv.ops) {slot owner : ℕ}
    (hmem : ⟨.recv, slot, owner⟩ ∈ srv.inFlight) {c : Conn η ω} (hc : srv.conns[slot]? = some c)
    (hlive : c.state ≠ .free) :
    c.born = owner ∧ c.recvPending = true ∧
      (srv.io.sq ++ srv.inFlight.erase ⟨.recv, slot, owner⟩).countP (isRecvOf c) = 0 := by
  have hborn := h.attributed.owner _ (List.mem_append_right _ hmem) nofun c hc hlive
  have hself : isRecvOf c ⟨.recv, slot, owner⟩ = true := by
    rw [isRecvOf, h.attributed.slotted slot c hc, hborn]
    exact decide_eq_true rfl
  have hcount := countP_erase srv hmem (isRecvOf c)
  rw [hself, h.count slot c hc hlive, if_pos rfl] at hcount
  cases hpending : c.recvPending with
  | false => exact absurd hcount (by rw [hpending]; exact Nat.succ_ne_zero _)
  | true =>
    rw [hpending] at hcount
    exact ⟨hborn, rfl, Nat.succ.inj hcount⟩

/-- A connection that waits for bytes and is not sending takes them. -/
theorem Accounted.takes {srv : Server η P υ ω} (h : Accounted srv.conns srv.ops) {slot owner : ℕ}
    (hmem : ⟨.recv, slot, owner⟩ ∈ srv.inFlight) {c : Conn η ω} (hc : srv.conns[slot]? = some c)
    (hlive : c.state ≠ .free) (hready : c.state ≠ .wsSend) : c.state = .recv ∨ c.state = .wsRecv := by
  have hpending := (h.taker hmem hc hlive).2.1
  have hsend := (h.sound slot c hc).send
  cases hstate : c.state with
  | free => exact absurd hstate hlive
  | recv => exact .inl rfl
  | send => exact nomatch hpending.symm.trans (hsend hstate)
  | wsRecv => exact .inr rfl
  | wsSend => exact absurd hstate hready

/-- A receive that completes is cleared in the connection that asked for it. -/
theorem Accounted.settle {srv : Server η P υ ω} (h : Accounted srv.conns srv.ops) {slot owner : ℕ}
    (hmem : ⟨.recv, slot, owner⟩ ∈ srv.inFlight)
    (hready : ∀ c, srv.conns[slot]? = some c → c.state ≠ .wsSend) :
    Accounted (settle srv.conns slot) (srv.io.sq ++ srv.inFlight.erase ⟨.recv, slot, owner⟩) := by
  have hattr := h.attributed.mono (erase_subset srv ⟨.recv, slot, owner⟩)
  have hother : ∀ d : Conn η ω, d.slot ≠ slot →
      (srv.io.sq ++ srv.inFlight.erase ⟨.recv, slot, owner⟩).countP (isRecvOf d)
        = srv.ops.countP (isRecvOf d) := by
    intro d hd
    have hcount := countP_erase srv hmem (isRecvOf d)
    rwa [if_neg (by simp [isRecvOf, Ne.symm hd])] at hcount
  have hsettled := hattr.settle slot
  unfold Edgehost.settle at hsettled ⊢
  -- A slot without a connection loses nothing.
  have hvacant : (∀ c, srv.conns[slot]? = some c → c.state = .free) →
      Accounted srv.conns (srv.io.sq ++ srv.inFlight.erase ⟨.recv, slot, owner⟩) := by
    intro hfree
    refine ⟨hattr, h.sound, fun i c hc hlive => ?_⟩
    have hslot : c.slot ≠ slot := by
      rw [h.attributed.slotted i c hc]
      rintro rfl
      exact hlive (hfree c hc)
    rw [hother c hslot]
    exact h.count i c hc hlive
  cases hc : srv.conns[slot]? with
  | none => exact hvacant fun c hc' => nomatch hc.symm.trans hc'
  | some c =>
    rw [hc] at hsettled
    dsimp only at hsettled ⊢
    by_cases hfree : c.state = .free
    · rw [if_neg (by rw [hfree]; decide)]
      refine hvacant fun d hd => ?_
      obtain rfl := Option.some.inj (hc.symm.trans hd)
      exact hfree
    · have hstate := h.takes hmem hc hfree (hready c hc)
      obtain ⟨-, hpending, hnone⟩ := h.taker hmem hc hfree
      have hsound := h.sound slot c hc
      rw [if_pos hstate] at hsettled ⊢
      exact h.set hsettled ⟨fun _ => rfl, fun _ h => (nomatch h), hsound.ws⟩ (fun _ => hnone) hother

/-- No receive completes for a connection that sends a frame. -/
def RecvReady (srv : Server η P υ ω) : LoopEvent η P υ ω → Prop
  | .received _ slot _ _ _ => ∀ c, srv.conns[slot]? = some c → c.state ≠ .wsSend
  | _ => True

instance (srv : Server η P υ ω) : ∀ ev : LoopEvent η P υ ω, Decidable (RecvReady srv ev)
  | .received _ slot _ _ _ =>
    decidable_of_iff ((srv.conns[slot]?.map Conn.state) ≠ some .wsSend)
      ⟨fun h c hc hstate => h (by rw [hc, Option.map_some, hstate]), fun h hstate => by
        obtain ⟨c, hc, hsend⟩ := Option.map_eq_some_iff.mp hstate
        exact h c hc hsend⟩
  | .accepted .. => inferInstanceAs (Decidable True)
  | .sent .. => inferInstanceAs (Decidable True)
  | .timeout .. => inferInstanceAs (Decidable True)

/-- **The count survives every turn that meets both conditions.** -/
theorem accounted_step (o : LoopOpts η) (srv : Server η P υ ω) (ev : LoopEvent η P υ ω)
    (h : Accounted srv.conns srv.ops) (hok : FreshAccept srv ev ∧ RecvReady srv ev) :
    Accounted (loopStep o srv ev).conns (loopStep o srv ev).ops := by
  refine accounted_stable.loopStep_kept o ev h hok.1 (fun sqe hmem hop => h.erase hmem hop) ?_
  rintro env slot owner res taken rfl hmem
  exact h.settle hmem hok.2

/-- At the start there is nothing to count. -/
theorem accounted_start (maxConns : ℕ) (world : ServeWorld P υ) :
    Accounted (loopStart (η := η) (ω := ω) maxConns world).conns
      (loopStart (η := η) (ω := ω) maxConns world).ops := by
  have hidle : ∀ (i : ℕ) (c : Conn η ω),
      (loopStart (η := η) (ω := ω) maxConns world).conns[i]? = some c → c.state = .free := by
    intro i c hc
    have hget : ((List.range maxConns).map (Conn.idle : ℕ → Conn η ω))[i]? = some c := hc
    rw [List.getElem?_map] at hget
    obtain ⟨j, -, rfl⟩ := Option.map_eq_some_iff.mp hget
    rfl
  refine ⟨attributed_start maxConns world, fun i c hc => ?_, fun i c hc hlive => ?_⟩
  · have hfree := hidle i c hc
    exact ⟨by simp [hfree], by simp [hfree], by simp [hfree]⟩
  · exact absurd (hidle i c hc) hlive

/-! ## What becomes of a completed receive -/

/-- The fan-out feeds nothing. -/
theorem wsFlushAllPending_fed (o : LoopOpts η) (env : LoopEnv η P υ ω) (io : LoopIo P υ)
    (cs : List (Conn η ω)) : (wsFlushAllPending o env io cs).1.fed = io.fed := by
  induction cs generalizing io with
  | nil => rfl
  | cons c cs ih =>
    have hfed := (flushPending_acts o env io c).fed
    rw [List.append_nil] at hfed
    exact (ih (flushPending o env io c).1).trans hfed

/-- The connection is over, or gets the reply to a bad request. -/
def Ended (c : Conn η ω) : Prop := c.state = .free ∨ c.state = .send ∧ c.sendBuf = some badRequest

/-- A receive that completes for a live connection is acted on: its bytes go to the parser of the
connection, or the connection ends. -/
def ActedOn (o : LoopOpts η) (srv : Server η P υ ω) (ev : LoopEvent η P υ ω) : Prop :=
  ∀ env slot owner res taken, ev = .received env slot owner res taken → shouldStop o srv = false →
    ⟨.recv, slot, owner⟩ ∈ srv.inFlight → ∀ c, srv.conns[slot]? = some c → c.state ≠ .free →
      (∀ data, res = .ok data → data ≠ [] →
        (loopStep o srv ev).io.fed = srv.io.fed ++ [(owner, data)]) ∧
      ((∀ data, res = .ok data → data = []) → (loopStep o srv ev).io.fed = srv.io.fed ∧
        ∃ c', (loopStep o srv ev).conns[slot]? = some c' ∧ Ended c')

theorem flushAll_fed (o : LoopOpts η) (env : LoopEnv η P υ ω) (srv : Server η P υ ω) :
    (flushAll o env srv).io.fed = srv.io.fed :=
  wsFlushAllPending_fed o env srv.io srv.conns

/-- **What is received is fed**, once and as it came. -/
theorem onRecv_fed (o : LoopOpts η) (env : LoopEnv η P υ ω) (srv : Server η P υ ω) {c : Conn η ω}
    (hstate : c.state = .recv ∨ c.state = .wsRecv) (hsound : Sound c) (hpending : c.recvPending)
    {data : Bytes} (hdata : data ≠ []) :
    (onRecv o env srv c (.ok data)).io.fed = srv.io.fed ++ [(c.born, data)] := by
  let c₁ : Conn η ω := { c with recvPending := false }
  unfold onRecv
  split
  · exact nomatch ‹Except.ok data = Except.error _›
  · exact absurd (Except.ok.inj ‹_›) hdata
  · rename_i data' _ hws hdata'
    obtain rfl := Except.ok.inj hdata'
    have hacts := handleWsRecv_acts o env srv.io data
      (show c₁.state ≠ .free from by rw [show c₁.state = .wsRecv from hws]; decide)
      (hsound.ws (.inl hws))
    dsimp only
    generalize handleWsRecv o env srv.io c₁ data = r at hacts ⊢
    obtain ⟨io, c', rc⟩ := r
    dsimp only at hacts ⊢
    split_ifs with hrc hagain
    · exact (hacts.trans (closeConn_acts io c')).fed
    · exact (hacts.trans (closeOnError_acts (submitRecv_acts o io fun h =>
        nomatch h.symm.trans hagain.1))).fed
    · exact hacts.fed
  · exact nomatch ‹Except.ok data = Except.error _›
  · rename_i data' hrecv hdata'
    obtain rfl := Except.ok.inj hdata'
    have hacts := handleHttpBytes_acts o env srv.io data
      (show c₁.state ≠ .free from by rw [show c₁.state = .recv from hrecv]; decide) rfl
    have hhttp : c.http.isNone = false := by
      rw [← Option.not_isSome, hsound.http hrecv hpending]
      rfl
    rw [if_neg (by simp [hdata, c₁, hhttp])] at hacts
    dsimp only
    generalize handleHttpBytes o env srv.io c₁ data = r at hacts ⊢
    obtain ⟨io, c', rc, flush⟩ := r
    have hput := (closeOnError_acts (r := (io, c', rc)) hacts).fed
    cases flush with
    | true => exact (flushAll_fed o env _).trans hput
    | false => exact hput
  · rename_i hwsOk _ hrecvOk
    rcases hstate with hs | hs
    · exact absurd rfl (hrecvOk data hs)
    · exact absurd rfl (hwsOk data hs)

/-- What stands in the slot after a function on its connection. -/
theorem getElem?_put {srv : Server η P υ ω} {c c₁ : Conn η ω} {new : List (ℕ × Bytes)}
    {r : LoopIo P υ × Conn η ω} (hc : srv.conns[c.slot]? = some c) (hslot : c₁.slot = c.slot)
    (hacts : Acts new srv.io c₁ r.1 r.2) : (srv.put r).conns[c.slot]? = some r.2 := by
  unfold Server.put
  rw [hacts.slot, hslot]
  exact List.getElem?_set_self (List.getElem?_eq_some_iff.mp hc).1

/-- A refusal that goes out is in the buffer. -/
theorem beginBadRequestPlain_zero {o : LoopOpts η} {io : LoopIo P υ} {c : Conn η ω}
    (h : (beginBadRequestPlain o io c).2.2 = 0) :
    (beginBadRequestPlain o io c).2.1.state = .send
      ∧ (beginBadRequestPlain o io c).2.1.sendBuf = some badRequest := by
  unfold beginBadRequestPlain at h ⊢
  split_ifs at h ⊢
  · exact nomatch h
  · unfold beginSendBuf submitSend
    split_ifs
    · exact ⟨rfl, rfl⟩
    · dsimp only
      split <;> exact ⟨rfl, rfl⟩

/-- An error, or the end of the stream, ends the connection. -/
theorem onRecv_ended (o : LoopOpts η) (env : LoopEnv η P υ ω) {srv : Server η P υ ω} {c : Conn η ω}
    (hc : srv.conns[c.slot]? = some c) (hstate : c.state = .recv ∨ c.state = .wsRecv)
    {res : Except ℤ Bytes} (hres : ∀ data, res = .ok data → data = []) :
    (onRecv o env srv c res).io.fed = srv.io.fed ∧
      ∃ c', (onRecv o env srv c res).conns[c.slot]? = some c' ∧ Ended c' := by
  let c₁ : Conn η ω := { c with recvPending := false }
  have hslot : c₁.slot = c.slot := rfl
  have hacts := closeConn_acts srv.io c₁
  have hclosed : (srv.put (closeConn srv.io c₁)).io.fed = srv.io.fed ∧
      ∃ c', (srv.put (closeConn srv.io c₁)).conns[c.slot]? = some c' ∧ Ended c' :=
    ⟨hacts.fed.trans (List.append_nil _), _, getElem?_put hc hslot hacts,
      .inl (closeConn_state srv.io c₁)⟩
  unfold onRecv
  split
  · exact hclosed
  · exact hclosed
  · exact absurd (hres _ rfl) ‹_›
  · exact hclosed
  · rename_i data hrecv
    obtain rfl := hres data rfl
    have hbad := beginBadRequestPlain_acts o srv.io
      (show c₁.state ≠ .free from by rw [show c₁.state = .recv from hrecv]; decide) rfl
    have hreply := @beginBadRequestPlain_zero η P υ ω o srv.io c₁
    have hhttp : handleHttpBytes o env srv.io c₁ [] = ((beginBadRequestPlain o srv.io c₁).1,
        (beginBadRequestPlain o srv.io c₁).2.1,
        if (beginBadRequestPlain o srv.io c₁).2.2 ≠ 0 then -1 else 0, false) := rfl
    rw [show handleHttpBytes o env srv.io _ [] = _ from hhttp]
    generalize beginBadRequestPlain o srv.io c₁ = r at hbad hreply ⊢
    have hput := closeOnError_acts (r := (r.1, r.2.1, if r.2.2 ≠ 0 then -1 else 0)) hbad
    refine ⟨hput.fed.trans (List.append_nil _), _, getElem?_put hc hslot hput, ?_⟩
    unfold closeOnError
    by_cases hrc : r.2.2 = 0
    · rw [if_neg (by simp [hrc])]
      exact .inr (hreply hrc)
    · rw [if_pos (by simp [hrc])]
      exact .inl (closeConn_state ..)
  · rename_i hwsError _ hwsOk hrecvError hrecvOk
    exact (receive_covered hstate hwsError hwsOk hrecvError hrecvOk).elim

/-- From the count: a receive that completes is acted on. -/
theorem Accounted.actedOn {o : LoopOpts η} {srv : Server η P υ ω} {ev : LoopEvent η P υ ω}
    (h : Accounted srv.conns srv.ops) (hready : RecvReady srv ev) : ActedOn o srv ev := by
  rintro env slot owner res taken rfl hrun hmem c hc hlive
  obtain rfl : c.slot = slot := h.attributed.slotted slot c hc
  have hstate := h.takes hmem hc hlive (hready c hc)
  obtain ⟨hborn, hpending, -⟩ := h.taker hmem hc hlive
  let srv' : Server η P υ ω := { srv with inFlight := srv.inFlight.erase ⟨.recv, c.slot, owner⟩ }
  have hc' : srv'.conns[c.slot]? = some c := hc
  have hstep : loopStep o srv (.received env c.slot owner res taken)
      = ioUringSubmit (onRecv o env srv' c res) taken := by
    have hunfold : loopStep o srv (.received env c.slot owner res taken)
        = completeOp o srv ⟨.recv, c.slot, owner⟩ taken fun srv =>
            atSlot srv c.slot fun c => onRecv o env srv c res := rfl
    rw [hunfold, completeOp, if_neg (by simp [hrun, hmem]), atSlot, hc']
    dsimp only
    rw [if_neg hlive]
  rw [hstep]
  refine ⟨fun data hres hdata => ?_, fun hres => onRecv_ended o env hc' hstate hres⟩
  rw [← hborn, hres]
  exact onRecv_fed o env srv' hstate (h.sound _ c hc) hpending hdata

/-- `recv_pending` is 1 exactly when a receive of the connection has not completed. -/
def PendingExact (srv : Server η P υ ω) : Prop :=
  ∀ (i : ℕ) (c : Conn η ω), srv.conns[i]? = some c → c.state ≠ .free →
    (c.recvPending ↔ ⟨.recv, i, c.born⟩ ∈ srv.ops)

/-- From the count: a pending flag is an operation under way. -/
theorem Accounted.exact {srv : Server η P υ ω} (h : Accounted srv.conns srv.ops) :
    PendingExact srv := by
  intro i c hc hlive
  obtain rfl : c.slot = i := h.attributed.slotted i c hc
  have hcount := h.count _ c hc hlive
  have hpos : 0 < srv.ops.countP (isRecvOf c) ↔ ⟨.recv, c.slot, c.born⟩ ∈ srv.ops := by
    rw [List.countP_pos_iff]
    constructor
    · rintro ⟨op, hop, hrecv⟩
      obtain rfl : op = ⟨.recv, c.slot, c.born⟩ := of_decide_eq_true hrecv
      exact hop
    · exact fun hop => ⟨_, hop, decide_eq_true rfl⟩
  rw [← hpos, hcount]
  cases c.recvPending <;> decide

/-- **`recv_pending` is exact and every completed receive is acted on**, in every run that accepts into
fresh slots only, and in which no receive completes while its connection sends a frame. -/
theorem accounted_of_ready (o : LoopOpts η) (maxConns : ℕ) (world : ServeWorld P υ)
    (evs : List (LoopEvent η P υ ω))
    (h : EachStep (loopStep o) (fun srv ev => FreshAccept srv ev ∧ RecvReady srv ev)
      (loopStart maxConns world) evs) :
    Always (loopStep o) PendingExact (loopStart maxConns world) evs
      ∧ EachStep (loopStep o) (ActedOn o) (loopStart maxConns world) evs := by
  have hstart := accounted_start (η := η) (ω := ω) maxConns world
  exact ⟨(EachStep.always (accounted_step o) hstart h).mono fun _ hs => hs.exact,
    (EachStep.with_inv (accounted_step o) hstart h).mono fun _ _ hs => hs.1.actedOn hs.2.2⟩

theorem accounted_rejoined :
    ((runFrom (loopStep streamOpts) (loopStart 1 streamWorld) rejoinedRun).conns.map
        fun c => (c.state, c.born, c.recvPending, c.sendPending)) = [(.wsSend, 1, true, true)]
      ∧ Always (loopStep streamOpts) PendingExact (loopStart 1 streamWorld) rejoinedRun
      ∧ EachStep (loopStep streamOpts) (ActedOn streamOpts) (loopStart 1 streamWorld) rejoinedRun :=
  ⟨by decide +kernel, accounted_of_ready streamOpts 1 streamWorld rejoinedRun (by decide +kernel)⟩

/-- The server while the frame of the scrape is being sent. -/
def busyServer : Server Unit Unit Unit Bytes :=
  runFrom (loopStep streamOpts) (loopStart 1 streamWorld) joinedRun

/-- What the client sends meanwhile is lost. -/
theorem not_actedOn_busy :
    ¬(Always (loopStep streamOpts) PendingExact (loopStart 1 streamWorld) (joinedRun ++ [lateReceive])
      ∧ EachStep (loopStep streamOpts) (ActedOn streamOpts) (loopStart 1 streamWorld)
        (joinedRun ++ [lateReceive])) := by
  rintro ⟨-, h⟩
  have hacted : ActedOn streamOpts busyServer lateReceive := EachStep.step_at h
  have hstate : busyServer.conns[0]?.map Conn.state = some .wsSend := by decide +kernel
  obtain ⟨c, hc, hlive⟩ := Option.map_eq_some_iff.mp hstate
  have hfed := (hacted streamEnv 0 0 (.ok handshake) 9 rfl (by decide +kernel) (by decide +kernel) c
    hc (by rw [hlive]; decide)).1 handshake rfl (by decide)
  exact absurd hfed (by decide +kernel)

end Edgehost
