import Edgehost.Host.LoopOps
import Edgehost.Host.StreamLaws

/-!
# Runs of the event loop

Which connection a completion reaches, and whether `recv_pending` tells what is in flight.

* `Stable`              — what a property of the slots must survive to be kept by every function of the
  loop, and `loopStep_stable`, that it then is.
* `attributed_of_fresh` — in a run that never accepts into a slot with an operation in flight, every
  completion reaches the connection that submitted it.
* `accounted_of_ready`  — if moreover no receive completes while its connection sends a frame, then
  `recv_pending` is exact and every completed receive is acted on.
-/

namespace Edgehost

variable {η P υ ω : Type*}

/-! ## Properties of the slots -/

/-- Every connection knows its slot. -/
def Slotted (conns : List (Conn η ω)) : Prop := ∀ i (c : Conn η ω), conns[i]? = some c → c.slot = i

/-- Everything submitted and not completed. -/
def Server.ops (srv : Server η P υ ω) : List Sqe := srv.io.sq ++ srv.inFlight

/-- A property of the slots and the operations in flight that the functions of the loop keep. -/
structure Stable (P υ : Type*) (I : List (Conn η ω) → List Sqe → Prop) : Prop where
  slotted : ∀ conns ops, I conns ops → Slotted conns
  perm : ∀ conns ops ops', I conns ops → ops'.Perm ops → I conns ops'
  accept : ∀ conns ops, I conns ops → I conns (⟨.accept, 0, 0⟩ :: ops)
  put : ∀ conns rest new (io io' : LoopIo P υ) (c c' : Conn η ω), I conns (io.sq ++ rest) →
    conns[c.slot]? = some c → Acts new io c io' c' → I (conns.set c.slot c') (io'.sq ++ rest)
  fresh : ∀ conns ops i (c : Conn η ω), I conns ops → (∀ op ∈ ops, op.op ≠ .accept → op.slot ≠ i) →
    i < conns.length → c.slot = i → c.recvPending = false → c.state = .recv →
      I (conns.set i c) ops

/-- The slots once a receive has completed: a connection that takes it waits for none. -/
def settle (conns : List (Conn η ω)) (slot : ℕ) : List (Conn η ω) :=
  match conns[slot]? with
  | some c =>
    if c.state = .recv ∨ c.state = .wsRecv then conns.set slot { c with recvPending := false }
    else conns
  | none => conns

/-- In the other states a receive is dropped. -/
theorem onRecv_of_not {o : LoopOpts η} {env : LoopEnv η P υ ω} {srv : Server η P υ ω}
    {c : Conn η ω} {res : Except ℤ Bytes} (h : ¬(c.state = .recv ∨ c.state = .wsRecv)) :
    onRecv o env srv c res = srv := by
  push Not at h
  unfold onRecv
  split
  · exact absurd ‹_› h.2
  · exact absurd ‹_› h.2
  · exact absurd ‹_› h.2
  · exact absurd ‹_› h.1
  · exact absurd ‹_› h.1
  · rfl

/-- No connection is accepted into a slot that an operation in flight names. -/
def FreshAccept (srv : Server η P υ ω) : LoopEvent η P υ ω → Prop
  | .accepted _ (.ok _) _ =>
    ∀ i, freeSlot srv.conns = some i → ∀ op ∈ srv.ops, op.op ≠ .accept → op.slot ≠ i
  | _ => True

instance (srv : Server η P υ ω) : ∀ ev : LoopEvent η P υ ω, Decidable (FreshAccept srv ev)
  | .accepted _ (.ok _) _ =>
    decidable_of_iff (∀ op ∈ srv.ops, op.op ≠ .accept → freeSlot srv.conns ≠ some op.slot)
      ⟨fun h _ hi op hop hne hslot => h op hop hne (hslot ▸ hi),
        fun h op hop hne hi => h _ hi op hop hne rfl⟩
  | .accepted _ (.error _) _ => inferInstanceAs (Decidable True)
  | .received .. => inferInstanceAs (Decidable True)
  | .sent .. => inferInstanceAs (Decidable True)
  | .timeout .. => inferInstanceAs (Decidable True)

/-- A connection that takes a receive is in one of two states, and the result is one of two. -/
theorem receive_covered {c : Conn η ω} {res : Except ℤ Bytes}
    (hstate : c.state = .recv ∨ c.state = .wsRecv)
    (hwsError : ∀ e, c.state = .wsRecv → res = .error e → False)
    (hwsOk : ∀ data, c.state = .wsRecv → res = .ok data → False)
    (hrecvError : ∀ e, c.state = .recv → res = .error e → False)
    (hrecvOk : ∀ data, c.state = .recv → res = .ok data → False) : False := by
  rcases hstate with hs | hs
  · cases res with
    | error err => exact hrecvError err hs rfl
    | ok data => exact hrecvOk data hs rfl
  · cases res with
    | error err => exact hwsError err hs rfl
    | ok data => exact hwsOk data hs rfl

section

variable {I : List (Conn η ω) → List Sqe → Prop} (hI : Stable P υ I)

include hI

/-- The new connection and the operations after a function on the connection of a slot. -/
theorem Stable.putConn {srv : Server η P υ ω} {c c₁ : Conn η ω} {new : List (ℕ × Bytes)}
    {r : LoopIo P υ × Conn η ω} (hc : srv.conns[c.slot]? = some c) (hslot : c₁.slot = c.slot)
    (h : I (srv.conns.set c.slot c₁) srv.ops) (hacts : Acts new srv.io c₁ r.1 r.2) :
    I (srv.put r).conns (srv.put r).ops := by
  have hlen : c.slot < srv.conns.length := List.getElem?_eq_some_iff.mp hc |>.1
  have hput := hI.put _ srv.inFlight new srv.io r.1 c₁ r.2 h
    (by rw [hslot, List.getElem?_set_self hlen]) hacts
  unfold Server.put Server.ops
  rw [hslot, List.set_set] at hput
  rw [hacts.slot, hslot]
  exact hput

theorem Stable.wsFlushAllPending_kept (o : LoopOpts η) (env : LoopEnv η P υ ω) (rest : List Sqe)
    (cs : List (Conn η ω)) (pre : List (Conn η ω)) (io : LoopIo P υ)
    (h : I (pre ++ cs) (io.sq ++ rest)) :
    I (pre ++ (wsFlushAllPending o env io cs).2)
      ((wsFlushAllPending o env io cs).1.sq ++ rest) := by
  induction cs generalizing pre io with
  | nil => exact h
  | cons c cs ih =>
    have hget : (pre ++ c :: cs)[pre.length]? = some c := by simp
    have hslot : c.slot = pre.length := hI.slotted _ _ h _ _ hget
    have hput := hI.put _ rest [] io (flushPending o env io c).1 c (flushPending o env io c).2 h
      (by rw [hslot]; exact hget) (flushPending_acts o env io c)
    rw [hslot, List.set_append_right _ _ le_rfl, Nat.sub_self, List.set_cons_zero] at hput
    have hnext := ih (pre ++ [(flushPending o env io c).2]) (flushPending o env io c).1
      (by rw [List.append_assoc]; exact hput)
    rw [List.append_assoc] at hnext
    exact hnext

theorem Stable.flushAll_kept (o : LoopOpts η) (env : LoopEnv η P υ ω) {srv : Server η P υ ω}
    (h : I srv.conns srv.ops) : I (flushAll o env srv).conns (flushAll o env srv).ops :=
  hI.wsFlushAllPending_kept o env srv.inFlight srv.conns [] srv.io h

theorem Stable.submitAccept_kept (o : LoopOpts η) {srv : Server η P υ ω} (h : I srv.conns srv.ops) :
    I (submitAccept o srv).conns (submitAccept o srv).ops := by
  unfold submitAccept
  split_ifs
  · exact h
  · exact h
  · cases hsqe : getSqe o srv.io ⟨.accept, 0, 0⟩ with
    | none => exact h
    | some io =>
      obtain rfl := getSqe_eq_some hsqe
      refine hI.perm _ _ _ (hI.accept _ _ h) ?_
      unfold Server.ops
      rw [List.append_assoc, List.singleton_append]
      exact List.perm_middle

theorem Stable.acceptOne_kept (o : LoopOpts η) (env : LoopEnv η P υ ω) {srv : Server η P υ ω}
    (clientFd : ℕ) (h : I srv.conns srv.ops)
    (hfree : ∀ i, freeSlot srv.conns = some i → ∀ op ∈ srv.ops, op.op ≠ .accept → op.slot ≠ i) :
    I (acceptOne o env srv clientFd).conns (acceptOne o env srv clientFd).ops := by
  unfold acceptOne
  split_ifs
  · exact h
  cases hslot : freeSlot srv.conns with
  | none => exact h
  | some i =>
    have hlen : i < srv.conns.length := (List.findIdx?_eq_some_iff_findIdx_eq.mp hslot).1
    dsimp only
    by_cases hcomplete : !(allocConn o env i srv.births).2
    · rw [if_pos hcomplete]
      refine hI.fresh _ _ i _ h (hfree i hslot) hlen ?_ ?_ ?_ <;>
        (unfold allocConn; dsimp only; split_ifs <;> rfl)
    rw [if_neg hcomplete]
    -- The connection is complete, and asks for its first bytes.
    obtain ⟨hbuf, hserve⟩ : env.allocSendBuf ∧ env.allocServe := by
      unfold allocConn at hcomplete
      dsimp only at hcomplete
      split_ifs at hcomplete with hbuf hserve <;> simp_all
    have halloc : allocConn o env i srv.births
        = ({ (Conn.idle i : Conn η ω) with
              state := .recv, born := srv.births, sendBuf := some [], http := some o.newServe },
            true) := by
      unfold allocConn
      rw [hbuf, hserve]
      rfl
    rw [halloc]
    dsimp only
    let c : Conn η ω :=
      { (Conn.idle i : Conn η ω) with
        state := .recv, born := srv.births, sendBuf := some [], http := some o.newServe
        fd := some clientFd }
    let io := srv.io.count fun m =>
      { m with accepts := m.accepts + 1, activeConns := m.activeConns + 1 }
    have hfresh : I (srv.conns.set i c) (io.sq ++ srv.inFlight) :=
      hI.fresh _ _ i c h (hfree i hslot) hlen rfl rfl rfl
    have hput := hI.put _ srv.inFlight [] io _ c _ hfresh (List.getElem?_set_self hlen)
      (closeOnError_acts (submitRecv_acts o io (show c.state = .recv → _ from fun _ => rfl)))
    rw [show c.slot = i from rfl, List.set_set] at hput
    exact hput

/-! ## Completions -/

/-- Put back what a function made of a connection of which `c₁` is the beginning. -/
theorem Stable.onSend_kept (o : LoopOpts η) (env : LoopEnv η P υ ω) {srv : Server η P υ ω}
    {c : Conn η ω} (hc : srv.conns[c.slot]? = some c) (res : Except ℤ ℕ)
    (h : I srv.conns srv.ops) : I (onSend o env srv c res).conns (onSend o env srv c res).ops := by
  have hself : I (srv.conns.set c.slot c) srv.ops := by
    obtain ⟨hlen, heq⟩ := List.getElem?_eq_some_iff.mp hc
    have hset := List.set_getElem_self hlen
    rw [heq] at hset
    rwa [hset]
  unfold onSend
  cases res with
  | error err =>
    have hflag : Acts [] srv.io c srv.io { c with sendPending := false } :=
      Acts.of_conn _ rfl rfl (fun h => ⟨h.send, h.http, h.ws⟩) fun h => ⟨h, rfl⟩
    exact hI.putConn hc rfl hself (hflag.trans (closeConn_acts ..))
  | ok n =>
    dsimp only
    let io := srv.io.count fun m => { m with bytesOut := m.bytesOut + UInt64.ofNat n }
    let c' : Conn η ω := { c with sendPending := false, sendOff := c.sendOff + n }
    have hsent : Acts [] srv.io c io c' :=
      (Acts.of_conn _ rfl rfl (fun h => ⟨h.send, h.http, h.ws⟩) fun h => ⟨h, rfl⟩ :
        Acts [] srv.io c srv.io c').to_world rfl rfl
    split_ifs
    · exact hI.putConn hc rfl hself
        (hsent.trans (closeOnError_acts (handleSendComplete_acts o env io c')))
    · exact hI.putConn hc rfl hself (hsent.trans (closeOnError_acts (submitSend_acts o io c')))

/-- A receive of a connection that takes one. -/
theorem Stable.onRecv_kept (o : LoopOpts η) (env : LoopEnv η P υ ω) {srv : Server η P υ ω}
    {c : Conn η ω} (hc : srv.conns[c.slot]? = some c) (res : Except ℤ Bytes)
    (hstate : c.state = .recv ∨ c.state = .wsRecv)
    (h : I (srv.conns.set c.slot { c with recvPending := false }) srv.ops) :
    I (onRecv o env srv c res).conns (onRecv o env srv c res).ops := by
  let c₁ : Conn η ω := { c with recvPending := false }
  have hslot : c₁.slot = c.slot := rfl
  have hclose := hI.putConn hc hslot h (closeConn_acts srv.io c₁)
  have hlive : c₁.state ≠ .free := by
    rcases hstate with hs | hs
    · rw [show c₁.state = .recv from hs]
      decide
    · rw [show c₁.state = .wsRecv from hs]
      decide
  unfold onRecv
  split
  · exact hclose
  · exact hclose
  · rename_i data _ _
    obtain ⟨new, hacts⟩ : ∃ new, Acts new srv.io c₁ (handleWsRecv o env srv.io c₁ data).1
        (handleWsRecv o env srv.io c₁ data).2.1 := by
      cases hws : c₁.ws with
      | none =>
        refine ⟨[], ?_⟩
        rw [handleWsRecv, hws]
        exact .refl srv.io c₁
      | some ws => exact ⟨_, handleWsRecv_acts o env srv.io data hlive (by rw [hws]; rfl)⟩
    dsimp only
    generalize handleWsRecv o env srv.io c₁ data = r at hacts ⊢
    obtain ⟨io, c', rc⟩ := r
    dsimp only at hacts ⊢
    -- Behind a frame the connection closes, receives again, or is left with its send.
    split_ifs with hrc hagain
    · exact hI.putConn hc hslot h (hacts.trans (closeConn_acts io c'))
    · exact hI.putConn hc hslot h (hacts.trans (closeOnError_acts (submitRecv_acts o io fun h =>
        nomatch h.symm.trans hagain.1)))
    · exact hI.putConn hc hslot h hacts
  · exact hclose
  · rename_i data _
    have hacts := handleHttpBytes_acts o env srv.io data hlive rfl
    dsimp only
    generalize handleHttpBytes o env srv.io c₁ data = r at hacts ⊢
    obtain ⟨io, c', rc, flush⟩ := r
    have hput := hI.putConn hc hslot h (closeOnError_acts (r := (io, c', rc)) hacts)
    cases flush with
    | true => exact hI.flushAll_kept o env hput
    | false => exact hput
  · rename_i hwsError _ hwsOk hrecvError hrecvOk
    exact (receive_covered hstate hwsError hwsOk hrecvError hrecvOk).elim

/-- A receive of whatever connection the slot holds. -/
theorem Stable.atSlot_onRecv (o : LoopOpts η) (env : LoopEnv η P υ ω) {srv : Server η P υ ω}
    (hslotted : Slotted srv.conns) {slot : ℕ} (res : Except ℤ Bytes)
    (h : I (settle srv.conns slot) srv.ops) :
    I (atSlot srv slot fun c => onRecv o env srv c res).conns
      (atSlot srv slot fun c => onRecv o env srv c res).ops := by
  unfold settle at h
  unfold atSlot
  cases hc : srv.conns[slot]? with
  | none =>
    rw [hc] at h
    exact h
  | some c =>
    rw [hc] at h
    obtain rfl := hslotted slot c hc
    dsimp only at h ⊢
    by_cases hstate : c.state = .recv ∨ c.state = .wsRecv
    · rw [if_pos hstate] at h
      have hres := hI.onRecv_kept o env hc res hstate h
      split_ifs with hfree
      · rw [hfree] at hstate
        exact absurd hstate (by decide)
      · exact hres
    · rw [if_neg hstate] at h
      rw [onRecv_of_not hstate]
      split_ifs <;> exact h

theorem Stable.atSlot_onSend (o : LoopOpts η) (env : LoopEnv η P υ ω) {srv : Server η P υ ω}
    {slot : ℕ} (res : Except ℤ ℕ) (h : I srv.conns srv.ops) :
    I (atSlot srv slot fun c => onSend o env srv c res).conns
      (atSlot srv slot fun c => onSend o env srv c res).ops := by
  unfold atSlot
  cases hc : srv.conns[slot]? with
  | none => exact h
  | some c =>
    obtain rfl := hI.slotted _ _ h slot c hc
    dsimp only
    split_ifs
    · exact h
    · exact hI.onSend_kept o env hc res h

theorem Stable.onTimeout_kept (o : LoopOpts η) (env : LoopEnv η P υ ω) {srv : Server η P υ ω}
    (h : I srv.conns srv.ops) : I (onTimeout o env srv).conns (onTimeout o env srv).ops := by
  have hflush := hI.flushAll_kept o env h
  unfold onTimeout
  dsimp only
  generalize flushAll o env srv = srv' at hflush ⊢
  cases srv'.io.world.store with
  | none => exact hflush
  | some st =>
    dsimp only
    split_ifs
    · exact hflush
    · refine hI.flushAll_kept o env ?_
      exact hflush
    · exact hflush

theorem Stable.ioUringSubmit_kept {srv : Server η P υ ω} (taken : ℕ) (h : I srv.conns srv.ops) :
    I (ioUringSubmit srv taken).conns (ioUringSubmit srv taken).ops := by
  refine hI.perm _ _ _ h ?_
  unfold ioUringSubmit Server.ops
  dsimp only
  rw [← List.append_assoc]
  refine List.perm_append_comm.trans ?_
  rw [← List.append_assoc, List.take_append_drop]

theorem Stable.completeOp_kept (o : LoopOpts η) {srv : Server η P υ ω} {sqe : Sqe} (taken : ℕ)
    {f : Server η P υ ω → Server η P υ ω} (h : I srv.conns srv.ops)
    (hf : sqe ∈ srv.inFlight → I (f { srv with inFlight := srv.inFlight.erase sqe }).conns
      (f { srv with inFlight := srv.inFlight.erase sqe }).ops) :
    I (completeOp o srv sqe taken f).conns (completeOp o srv sqe taken f).ops := by
  unfold completeOp
  by_cases hno : shouldStop o srv ∨ sqe ∉ srv.inFlight
  · rw [if_pos hno]
    exact h
  · rw [if_neg hno]
    exact hI.ioUringSubmit_kept taken (hf (by tauto))

/-- **A stable property survives a turn of the loop**, if it survives the completion itself and no
connection is accepted into a slot that an operation in flight names. -/
theorem Stable.loopStep_kept (o : LoopOpts η) {srv : Server η P υ ω} (ev : LoopEvent η P υ ω)
    (h : I srv.conns srv.ops) (hfresh : FreshAccept srv ev)
    (herase : ∀ sqe ∈ srv.inFlight, sqe.op ≠ .recv →
      I srv.conns (srv.io.sq ++ srv.inFlight.erase sqe))
    (hrecv : ∀ env slot owner res taken, ev = .received env slot owner res taken →
      ⟨.recv, slot, owner⟩ ∈ srv.inFlight →
        I (settle srv.conns slot) (srv.io.sq ++ srv.inFlight.erase ⟨.recv, slot, owner⟩)) :
    I (loopStep o srv ev).conns (loopStep o srv ev).ops := by
  cases ev with
  | accepted env res taken =>
    refine hI.completeOp_kept o taken h fun hmem => hI.submitAccept_kept o ?_
    have herased := herase _ hmem (by decide)
    cases res with
    | error err => exact herased
    | ok fd =>
      refine hI.acceptOne_kept o env fd herased fun i hi op hop => hfresh i hi op ?_
      rcases List.mem_append.mp hop with hop | hop
      · exact List.mem_append_left _ hop
      · exact List.mem_append_right _ (List.mem_of_mem_erase hop)
  | received env slot owner res taken =>
    refine hI.completeOp_kept o taken h fun hmem => hI.atSlot_onRecv o env ?_ res ?_
    · exact hI.slotted _ _ h
    · exact hrecv _ _ _ _ _ rfl hmem
  | sent env slot owner res taken =>
    exact hI.completeOp_kept o taken h fun hmem =>
      hI.atSlot_onSend o env res (herase _ hmem nofun)
  | timeout env taken =>
    have hstep : loopStep o srv (.timeout env taken)
        = if shouldStop o srv then srv else ioUringSubmit (onTimeout o env srv) taken := rfl
    rw [hstep]
    by_cases hstop : shouldStop o srv
    · rw [if_pos hstop]
      exact h
    · rw [if_neg hstop]
      exact hI.ioUringSubmit_kept taken (hI.onTimeout_kept o env h)

end

/-! ## Completions reach their connection -/

/-- An operation names the connection that its slot holds, if the slot holds one. -/
structure Attributed (conns : List (Conn η ω)) (ops : List Sqe) : Prop where
  slotted : Slotted conns
  owner : ∀ op ∈ ops, op.op ≠ .accept → ∀ c, conns[op.slot]? = some c → c.state ≠ .free →
    c.born = op.owner

theorem Slotted.set {conns : List (Conn η ω)} {i : ℕ} {c : Conn η ω} (h : Slotted conns)
    (hc : c.slot = i) : Slotted (conns.set i c) := by
  intro j d hd
  by_cases hij : i = j
  · obtain rfl := hij
    obtain ⟨hlen, rfl⟩ := List.getElem?_eq_some_iff.mp hd
    rw [List.getElem_set_self]
    exact hc
  · rw [List.getElem?_set_ne hij] at hd
    exact h j d hd

/-- Fewer operations are attributed as well. -/
theorem Attributed.mono {conns : List (Conn η ω)} {ops ops' : List Sqe} (h : Attributed conns ops)
    (hsub : ops' ⊆ ops) : Attributed conns ops' :=
  ⟨h.slotted, fun op hop => h.owner op (hsub hop)⟩

/-- Another connection in a slot whose operations are all its own. -/
theorem Attributed.set {conns : List (Conn η ω)} {ops : List Sqe} {i : ℕ} {c : Conn η ω}
    (h : Attributed conns ops) (hslot : c.slot = i)
    (hown : ∀ op ∈ ops, op.op ≠ .accept → op.slot = i → c.state ≠ .free → c.born = op.owner) :
    Attributed (conns.set i c) ops := by
  refine ⟨h.slotted.set hslot, fun op hop hop' d hd hlive => ?_⟩
  by_cases hi : i = op.slot
  · obtain rfl := hi
    obtain ⟨hlen, rfl⟩ := List.getElem?_eq_some_iff.mp hd
    rw [List.getElem_set_self] at hlive ⊢
    exact hown op hop hop' rfl hlive
  · rw [List.getElem?_set_ne hi] at hd
    exact h.owner op hop hop' d hd hlive

theorem attributed_stable : Stable P υ (Attributed (η := η) (ω := ω)) where
  slotted _ _ h := h.slotted
  perm _ _ _ h hperm := h.mono hperm.subset
  accept _ _ h := by
    refine ⟨h.slotted, fun op hop hne => ?_⟩
    rcases List.mem_cons.mp hop with rfl | hop
    · exact absurd rfl hne
    · exact h.owner op hop hne
  put conns rest new io io' c c' h hc hacts := by
    obtain ⟨added, hsq, hown, hlive⟩ := hacts.sq
    have hbigger : Attributed conns (io'.sq ++ rest) := by
      refine ⟨h.slotted, fun op hop hne d hd hd' => ?_⟩
      rw [hsq, List.append_assoc] at hop
      by_cases hadded : op ∈ added
      · obtain ⟨hslot, howner⟩ := hown op hadded
        rw [hslot, hc] at hd
        obtain rfl := Option.some.inj hd
        exact howner.symm
      · refine h.owner op ?_ hne d hd hd'
        simp only [List.mem_append] at hop ⊢
        tauto
    refine hbigger.set hacts.slot fun op hop hne hslot hfree => ?_
    rw [hacts.born]
    exact hbigger.owner op hop hne c (hslot ▸ hc) (hlive hfree).1
  fresh conns ops i c h hnone _ hslot _ _ :=
    h.set hslot fun op hop hne hi => absurd hi (hnone op hop hne)

theorem Attributed.settle {conns : List (Conn η ω)} {ops : List Sqe} (h : Attributed conns ops)
    (slot : ℕ) : Attributed (settle conns slot) ops := by
  unfold Edgehost.settle
  cases hc : conns[slot]? with
  | none => exact h
  | some c =>
    dsimp only
    split_ifs
    · exact h.set (h.slotted slot c hc) fun op hop hne hslot hlive =>
        h.owner op hop hne c (hslot ▸ hc) hlive
    · exact h

theorem erase_subset (srv : Server η P υ ω) (sqe : Sqe) :
    srv.io.sq ++ srv.inFlight.erase sqe ⊆ srv.ops :=
  List.append_subset.mpr ⟨List.subset_append_left _ _,
    fun _ hop => List.mem_append_right _ (List.mem_of_mem_erase hop)⟩

/-- **Attribution survives every turn that accepts into a fresh slot.** -/
theorem attributed_step (o : LoopOpts η) (srv : Server η P υ ω) (ev : LoopEvent η P υ ω)
    (h : Attributed srv.conns srv.ops) (hfresh : FreshAccept srv ev) :
    Attributed (loopStep o srv ev).conns (loopStep o srv ev).ops :=
  attributed_stable.loopStep_kept o ev h hfresh
    (fun sqe _ _ => h.mono (erase_subset srv sqe))
    fun _ slot owner _ _ _ _ => (h.mono (erase_subset srv ⟨.recv, slot, owner⟩)).settle slot

theorem attributed_start (maxConns : ℕ) (world : ServeWorld P υ) :
    Attributed (loopStart (η := η) (ω := ω) maxConns world).conns
      (loopStart (η := η) (ω := ω) maxConns world).ops := by
  refine ⟨?_, fun op hop hne => absurd ?_ hne⟩
  · intro i c hc
    have hget : ((List.range maxConns).map (Conn.idle : ℕ → Conn η ω))[i]? = some c := hc
    rw [List.getElem?_map] at hget
    obtain ⟨j, hj, rfl⟩ := Option.map_eq_some_iff.mp hget
    obtain ⟨_, rfl⟩ := List.getElem?_eq_some_iff.mp hj
    exact List.getElem_range _
  · rw [List.mem_singleton.mp hop]

/-- The completion that a turn takes up, if there is one. -/
def LoopEvent.sqe : LoopEvent η P υ ω → Option Sqe
  | .received _ slot owner _ _ => some ⟨.recv, slot, owner⟩
  | .sent _ slot owner _ _ => some ⟨.send, slot, owner⟩
  | _ => none

/-- A completion does nothing to a connection that did not submit it: the connection stays as it is,
and gets no bytes. -/
def Harmless (o : LoopOpts η) (srv : Server η P υ ω) (ev : LoopEvent η P υ ω) : Prop :=
  ∀ sqe, ev.sqe = some sqe → sqe ∈ srv.inFlight → ∀ c, srv.conns[sqe.slot]? = some c →
    c.state ≠ .free → c.born ≠ sqe.owner →
      (loopStep o srv ev).conns[sqe.slot]? = some c ∧ (loopStep o srv ev).io.fed = srv.io.fed

/-- Every receive and every send in flight names the connection that its slot holds, if any. -/
def OwnCompletions (srv : Server η P υ ω) : Prop :=
  ∀ op ∈ srv.ops, op.op ≠ .accept → ∀ c, srv.conns[op.slot]? = some c → c.state ≠ .free →
    c.born = op.owner

theorem Attributed.harmless {o : LoopOpts η} {srv : Server η P υ ω} {ev : LoopEvent η P υ ω}
    (h : Attributed srv.conns srv.ops) : Harmless o srv ev := by
  intro sqe hev hmem c hc hlive hborn
  have hop : sqe.op ≠ .accept := by
    cases ev with
    | accepted env res taken => exact nomatch hev
    | received env slot owner res taken =>
      obtain rfl := Option.some.inj hev
      exact nofun
    | sent env slot owner res taken =>
      obtain rfl := Option.some.inj hev
      exact nofun
    | timeout env taken => exact nomatch hev
  exact absurd (h.owner sqe (List.mem_append_right _ hmem) hop c hc hlive) hborn

/-- **Completions reach the connection that submitted them**, in every run that accepts no connection
into a slot that an operation in flight names. -/
theorem attributed_of_fresh (o : LoopOpts η) (maxConns : ℕ) (world : ServeWorld P υ)
    (evs : List (LoopEvent η P υ ω))
    (h : EachStep (loopStep o) FreshAccept (loopStart maxConns world) evs) :
    Always (loopStep o) OwnCompletions (loopStart maxConns world) evs
      ∧ EachStep (loopStep o) (Harmless o) (loopStart maxConns world) evs := by
  have hstart := attributed_start (η := η) (ω := ω) maxConns world
  exact ⟨(EachStep.always (attributed_step o) hstart h).mono fun _ hs => hs.owner,
    (EachStep.with_inv (attributed_step o) hstart h).mono fun _ _ hs => hs.1.harmless⟩

/-! ## A late completion -/

/-- A handshake for the stream. -/
def handshake : Bytes :=
  bytes "GET /api/v1/stream HTTP/1.1" ++ crlf ++ bytes "Upgrade: websocket" ++ crlf
    ++ bytes "Sec-WebSocket-Key: dGhlIHNhbXBsZSBub25jZQ==" ++ crlf2

/-- A parser that takes every packet for this handshake. -/
def handshakeParser : Http1Parser Unit where
  feedInput _ _ :=
    ([(.requestLine (bytes "GET") (bytes "/api/v1/stream"), ()), (.headersComplete, ())], ())
  getHeader _ name _ :=
    if name = bytes "Sec-WebSocket-Key" then some (bytes "dGhlIHNhbXBsZSBub25jZQ==") else none
  isWebsocketUpgrade _ := true

/-- A text frame, as a server sends it. -/
def textFrame (text : Bytes) : Bytes :=
  129 :: (if text.length < 126 then [UInt8.ofNat text.length]
    else [126, UInt8.ofNat (text.length / 256), UInt8.ofNat text.length]) ++ text

/-- A WebSocket library whose state is what it has to send, and to which clients send text only. -/
def framing : WebsocketLib Bytes where
  create := some []
  feedInput ws _ := ([.other], ws)
  sendPong ws payload := some (ws ++ 138 :: UInt8.ofNat payload.length :: payload)
  sendText ws text := some (ws ++ textFrame text)
  getOutput ws cap := (ws.take cap, ws.drop cap)

def streamEnv : LoopEnv Unit Unit Unit Bytes where
  serve := { replyingEnv [] with parser := handshakeParser }
  ws := framing
  nonblock := true
  allocSendBuf := true
  allocServe := true
  scrape := downScrape

def streamOpts : LoopOpts Unit where
  maxAccepts := 0
  ringEntries := 256
  sendCap := sendCap edgeConfigDefaults
  pqCfg := { proxyCfg with scrapeIntervalMs := 200 }
  newServe := freshServe

/-- A process with a store and a hub for one connection. -/
def streamWorld : ServeWorld Unit Unit where
  store := some healthStore
  hub := some (edgeWsHubCreate 1)
  plugins := none
  mem := ()
  metrics := none

/-- A client joins the stream, and a scrape announces something to it. -/
def joinedRun : List (LoopEvent Unit Unit Unit Bytes) :=
  [.accepted streamEnv (.ok 5) 9, .received streamEnv 0 0 (.ok handshake) 9,
    .sent streamEnv 0 0 (.ok 129) 9, .timeout streamEnv 9]

/-- The send of the announcement fails, which closes the connection, and its receive completes. Only then
another client gets the slot, joins the stream and is sent the next announcement. -/
def rejoinedRun : List (LoopEvent Unit Unit Unit Bytes) :=
  joinedRun ++ [.sent streamEnv 0 0 (.error (-32)) 9, .received streamEnv 0 0 (.error (-104)) 9,
    .accepted streamEnv (.ok 6) 9, .received streamEnv 0 1 (.ok handshake) 9,
    .sent streamEnv 0 1 (.ok 129) 9, .timeout streamEnv 9]

/-- In the end the slot holds the second client, with a receive and a send of its own in flight. -/
theorem attributed_rejoined :
    ((runFrom (loopStep streamOpts) (loopStart 1 streamWorld) rejoinedRun).conns.map
        fun c => (c.state, c.born, c.recvPending, c.sendPending)) = [(.wsSend, 1, true, true)]
      ∧ Always (loopStep streamOpts) OwnCompletions (loopStart 1 streamWorld) rejoinedRun
      ∧ EachStep (loopStep streamOpts) (Harmless streamOpts) (loopStart 1 streamWorld) rejoinedRun :=
  ⟨by decide +kernel, attributed_of_fresh streamOpts 1 streamWorld rejoinedRun (by decide +kernel)⟩

/-- The send fails, which closes the connection, and another client connects. -/
def staleRun : List (LoopEvent Unit Unit Unit Bytes) :=
  joinedRun ++ [.sent streamEnv 0 0 (.error (-32)) 9, .accepted streamEnv (.ok 6) 9]

/-- The server then: the second connection is in the slot, the receive of the first in flight. -/
def staleServer : Server Unit Unit Unit Bytes :=
  runFrom (loopStep streamOpts) (loopStart 1 streamWorld) staleRun

/-- What the first client had sent last. -/
def lateReceive : LoopEvent Unit Unit Unit Bytes := .received streamEnv 0 0 (.ok handshake) 9

theorem not_harmless_stale : ¬EachStep (loopStep streamOpts) (Harmless streamOpts)
    (loopStart 1 streamWorld) (staleRun ++ [lateReceive]) := by
  intro h
  have hharmless : Harmless streamOpts staleServer lateReceive := EachStep.step_at h
  have hslot : staleServer.conns[0]?.map (fun c => (c.state, c.born)) = some (.recv, 1) := by
    decide +kernel
  obtain ⟨c, hc, hpair⟩ := Option.map_eq_some_iff.mp hslot
  obtain ⟨hstate, hborn⟩ := Prod.mk.inj hpair
  have hfed := (hharmless ⟨.recv, 0, 0⟩ rfl (by decide +kernel) c hc (by rw [hstate]; decide)
    (by rw [hborn]; decide)).2
  -- The bytes of the first client have gone to the parser of the second.
  exact absurd hfed (by decide +kernel)

end Edgehost
