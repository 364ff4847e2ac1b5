import Edgehost.Host.TlsEffects
import Edgehost.Host.TlsSends

/-!
# The server around the connections (`edge_iouring_run`)

The slots, the accepts, and the loop that hands each completion to the connection in its slot. A
server has a TLS context (`tls`) for all its connections or for none.

* `SlotsCounted` says that the slots in use are those with a descriptor, and that `active_conns` is
  their number.
* `Strands` names the accepts after which that fails: `alloc_conn` takes a slot and then finds no
  memory.
* `always_slotsCounted_iff` is the result: a run keeps the slots counted, and its failed accepts leave
  them alone, exactly when none of its accepts strands a slot.
* `always_each` is the rule that takes a property of one connection to all slots of a run, and
  `always_hasRun` says that the slots go through runs of single connections.
-/

namespace Edgehost.Tls

variable {η P υ ω : Type*}

/-! ## The loop -/

/-- `server_t`. -/
structure Server (η P υ ω : Type*) where
  conns : List (Conn η ω)
  io : LoopIo P υ
  inFlight : List Sqe
  acceptsDone : ℕ
  acceptPending : Bool
  tick : UInt64
  lastScrapeMs : UInt64
  births : ℕ

/-- `ws_flush_all_pending`: the slots in their order. -/
def wsFlushAllPending (o : LoopOpts η) (env : LoopEnv η P υ ω) :
    LoopIo P υ → List (Conn η ω) → LoopIo P υ × List (Conn η ω)
  | io, [] => (io, [])
  | io, c :: cs =>
    let r := flushPending o env io c
    let rest := wsFlushAllPending o env r.1 cs
    (rest.1, r.2 :: rest.2)

/-- The fan-out over all slots of a server. -/
def flushAll (o : LoopOpts η) (env : LoopEnv η P υ ω) (srv : Server η P υ ω) : Server η P υ ω :=
  let r := wsFlushAllPending o env srv.io srv.conns
  { srv with io := r.1, conns := r.2 }

/-- A completion goes to whatever connection its slot holds; the flag of its handler asks for a
fan-out. -/
def atSlot (o : LoopOpts η) (env : LoopEnv η P υ ω) (srv : Server η P υ ω) (slot : ℕ)
    (f : LoopIo P υ → Conn η ω → LoopIo P υ × Conn η ω × Bool) : Server η P υ ω :=
  match srv.conns[slot]? with
  | none => srv
  | some c =>
    let r := f srv.io c
    let srv := { srv with io := r.1, conns := srv.conns.set slot r.2.1 }
    if r.2.2 then flushAll o env srv else srv

/-- The first free slot, where `alloc_conn` puts a connection. -/
def freeSlot (conns : List (Conn η ω)) : Option ℕ := conns.findIdx? fun c => c.state = .free

/-- The refusal of a connection for which there is no slot or no memory. -/
def reject (srv : Server η P υ ω) : Server η P υ ω :=
  { srv with io := srv.io.count fun m => { m with rejects := m.rejects + 1 } }

/-- `accept_one`. -/
def acceptOne (o : LoopOpts η) (env : LoopEnv η P υ ω) (tls : Bool) (srv : Server η P υ ω)
    (clientFd : ℕ) : Server η P υ ω × ℤ :=
  if !env.nonblock then (srv, -1)
  else
    match freeSlot srv.conns with
    | none => (reject srv, -1)
    | some i =>
      let a := allocConn o env i srv.births
      let srv := { srv with births := srv.births + 1 }
      -- A slot that was taken is not given back.
      if !a.2 then (reject { srv with conns := srv.conns.set i a.1 }, -1)
      else
        let r := openConn o env tls srv.io a.1 clientFd
        ({ srv with
            acceptsDone := srv.acceptsDone + 1
            io := r.1
            conns := srv.conns.set i r.2.1 }, r.2.2)

/-- `submit_accept`. -/
def submitAccept (o : LoopOpts η) (srv : Server η P υ ω) : Server η P υ ω :=
  if srv.acceptPending then srv
  else if o.maxAccepts > 0 ∧ srv.acceptsDone ≥ o.maxAccepts then srv
  else
    match getSqe o srv.io ⟨.accept, 0, 0⟩ with
    | none => srv
    | some io => { srv with io, acceptPending := true }

/-- An ACCEPT completion. -/
def onAccept (o : LoopOpts η) (env : LoopEnv η P υ ω) (tls : Bool) (srv : Server η P υ ω)
    (res : Except ℤ ℕ) : Server η P υ ω :=
  let srv := { srv with acceptPending := false }
  submitAccept o (match res with
    | .ok clientFd => (acceptOne o env tls srv clientFd).1
    | .error _ => srv)

/-- The scrape that is due from time to time, and the fan-out of what it announces; to that one OpenSSL gives
the answers `again`. -/
def scrape (o : LoopOpts η) (env : LoopEnv η P υ ω) (again : ℕ → SslAnswers)
    (srv : Server η P υ ω) (st : StateStore) : Server η P υ ω :=
  let r := edgePqSidecarScrapeOnce env.scrape o.pqCfg st srv.io.world.hub
  let world := { srv.io.world with store := some r.1, hub := r.2.1 }
  flushAll o { env with ssl := again }
    { srv with lastScrapeMs := srv.tick, io := { srv.io with world } }

/-- The wait timed out: a fan-out, and a scrape if one is due. -/
def onTimeout (o : LoopOpts η) (env : LoopEnv η P υ ω) (again : ℕ → SslAnswers)
    (srv : Server η P υ ω) : Server η P υ ω :=
  let srv := flushAll o env srv
  match srv.io.world.store with
  | none => srv
  | some st =>
    if !o.pqCfg.enabled then srv
    else
      let srv := { srv with tick := srv.tick + 200 }
      if srv.tick - srv.lastScrapeMs ≥ o.pqCfg.scrapeIntervalMs.toUInt64 then scrape o env again srv st
      else srv

/-- `io_uring_submit`, of which the kernel takes the first entries. -/
def ioUringSubmit (srv : Server η P υ ω) (taken : ℕ) : Server η P υ ω :=
  { srv with
    inFlight := srv.inFlight ++ srv.io.sq.take taken
    io := { srv.io with sq := srv.io.sq.drop taken } }

/-- What the wait for a completion brings: the completion of an operation, or nothing. `taken` is how
many entries the submission then takes. A timeout can have two fan-outs, with answers of OpenSSL for each. -/
inductive LoopEvent (η P υ ω : Type*) where
  | accepted (env : LoopEnv η P υ ω) (res : Except ℤ ℕ) (taken : ℕ)
  | received (env : LoopEnv η P υ ω) (slot owner : ℕ) (res : Except ℤ Bytes) (taken : ℕ)
  | sent (env : LoopEnv η P υ ω) (slot owner : ℕ) (res : Except ℤ ℕ) (taken : ℕ)
  | polled (env : LoopEnv η P υ ω) (slot owner : ℕ) (wantWrite ok : Bool) (taken : ℕ)
  | timeout (env : LoopEnv η P υ ω) (again : ℕ → SslAnswers) (taken : ℕ)

/-- `should_stop`, without a stop flag. -/
def shouldStop (o : LoopOpts η) (srv : Server η P υ ω) : Bool :=
  o.maxAccepts > 0 && srv.acceptsDone ≥ o.maxAccepts && !srv.acceptPending
    && srv.conns.all fun c => c.state = .free

/-- The completion of an operation; only what is in flight completes, and once. -/
def completeOp (o : LoopOpts η) (srv : Server η P υ ω) (sqe : Sqe) (taken : ℕ)
    (f : Server η P υ ω → Server η P υ ω) : Server η P υ ω :=
  if shouldStop o srv ∨ sqe ∉ srv.inFlight then srv
  else ioUringSubmit (f { srv with inFlight := srv.inFlight.erase sqe }) taken

/-- One turn of the loop. -/
def loopStep (o : LoopOpts η) (tls : Bool) (srv : Server η P υ ω) :
    LoopEvent η P υ ω → Server η P υ ω
  | .accepted env res taken =>
    completeOp o srv ⟨.accept, 0, 0⟩ taken fun srv => onAccept o env tls srv res
  | .received env slot owner res taken =>
    completeOp o srv ⟨.recv, slot, owner⟩ taken fun srv =>
      atSlot o env srv slot fun io c => onRecv o env io c res
  | .sent env slot owner res taken =>
    completeOp o srv ⟨.send, slot, owner⟩ taken fun srv =>
      atSlot o env srv slot fun io c => ((onSend o env io c res).1, (onSend o env io c res).2, false)
  | .polled env slot owner wantWrite ok taken =>
    completeOp o srv ⟨.poll wantWrite, slot, owner⟩ taken fun srv =>
      atSlot o env srv slot fun io c => onPoll o env io c ok
  | .timeout env again taken =>
    if shouldStop o srv then srv else ioUringSubmit (onTimeout o env again srv) taken

/-- The server when the loop begins: free slots, no live connection counted, and the first accept in
flight. -/
def loopStart (maxConns : Fin (2 ^ 31)) (world : ServeWorld P υ) (metrics : EdgeMetrics) :
    Server η P υ ω where
  conns := (List.range maxConns).map Conn.idle
  io := { world := { world with metrics := some { metrics with activeConns := 0 } }, sq := [] }
  inFlight := [⟨.accept, 0, 0⟩]
  acceptsDone := 0
  acceptPending := true
  tick := 0
  lastScrapeMs := 0
  births := 0

/-! ## Counting the slots -/

/-- The number of slots in use. -/
def liveCount (conns : List (Conn η ω)) : ℕ := conns.countP fun c => c.state ≠ .free

/-- A slot is in use exactly when it has a descriptor. -/
def InUse (c : Conn η ω) : Prop := c.state ≠ .free ↔ c.fd.isSome

instance (c : Conn η ω) : Decidable (InUse c) := inferInstanceAs (Decidable (_ ↔ _))

/-- The slots in use are those with a descriptor, and `active_conns` is their number. -/
structure SlotsCounted (srv : Server η P υ ω) : Prop where
  inUse : ∀ c ∈ srv.conns, InUse c
  counted : srv.io.active = some (UInt64.ofNat (liveCount srv.conns))

/-- An accept completes. -/
def Accepts (o : LoopOpts η) (srv : Server η P υ ω) : Prop :=
  shouldStop o srv = false ∧ ⟨.accept, 0, 0⟩ ∈ srv.inFlight

/-- The accept takes a slot and then finds no memory for its connection. -/
def Strands (o : LoopOpts η) (srv : Server η P υ ω) : LoopEvent η P υ ω → Prop
  | .accepted env (.ok _) _ =>
    Accepts o srv ∧ env.nonblock = true ∧ (∃ c ∈ srv.conns, c.state = .free) ∧
      ¬ (env.allocSendBuf = true ∧ env.allocServe = true)
  | _ => False

/-- An `accept_one` that returns -1 leaves the state of every slot as it was. -/
def RollsBack (o : LoopOpts η) (tls : Bool) (srv : Server η P υ ω) : LoopEvent η P υ ω → Prop
  | .accepted env (.ok clientFd) _ =>
    Accepts o srv → (acceptOne o env tls srv clientFd).2 = -1 →
      (acceptOne o env tls srv clientFd).1.conns.map Conn.state = srv.conns.map Conn.state
  | _ => True

/-! ## One slot -/

/-- What a step does to a slot: nothing to a free one; a connection lives on in it or is closed. -/
structure Turns (io : LoopIo P υ) (c : Conn η ω) (io' : LoopIo P υ) (c' : Conn η ω) : Prop where
  free : c.state = .free → c'.state = .free ∧ c'.fd = c.fd ∧ io'.active = io.active
  live : c.state ≠ .free → (c'.state ≠ .free ∧ c'.fd = c.fd ∧ io'.active = io.active) ∨
    (c'.state = .free ∧ c'.fd = none ∧ io'.active = dropped c.fd io.active)

/-- An effect, of a connection that differs from `c` in neither state nor descriptor. -/
theorem Effect.turns {io io' : LoopIo P υ} {c c₁ c' : Conn η ω} (h : Effect io c₁ io' c')
    (hst : c₁.state = c.state) (hfd : c₁.fd = c.fd) : Turns io c io' c' where
  free hfree := by
    obtain ⟨rfl, hactive⟩ := h.free (hst.trans hfree)
    exact ⟨hst.trans hfree, hfd, hactive⟩
  live hlive := by
    rcases h.live (hst ▸ hlive) with h | h
    · exact .inl ⟨h.live, h.fd.trans hfd, h.active⟩
    · exact .inr ⟨h.free, h.fd, hfd ▸ h.active⟩

theorem handleTlsPoll_turns (o : LoopOpts η) (env : LoopEnv η P υ ω) (io : LoopIo P υ)
    (c : Conn η ω) (ssl : Ssl) : ∃ c₁ : Conn η ω, c₁.state = c.state ∧ c₁.fd = c.fd ∧
      Effect io c₁ (handleTlsPoll o env io c ssl).1 (handleTlsPoll o env io c ssl).2.1 := by
  let c₁ : Conn η ω := { c with ssl := some (edgeTlsRead ssl RECV_BUF (env.ssl c.slot).record).1 }
  unfold handleTlsPoll
  split
  case h_1 => exact ⟨c, rfl, rfl, .refl io c⟩
  case h_2 hst => exact ⟨c, rfl, rfl, pollHandshake_effect o env io hst⟩
  case h_3 hst => exact ⟨c₁, rfl, rfl, pollHttp_effect o env io hst ssl⟩
  case h_4 hst => exact ⟨c₁, rfl, rfl, pollWs_effect o env io hst ssl⟩
  case h_5 hst => exact ⟨c, rfl, rfl, tlsDriveWrite_effect o env _ io c (by simp [hst])⟩
  case h_6 hst => exact ⟨c, rfl, rfl, tlsDriveWrite_effect o env _ io c (by simp [hst])⟩

theorem onPoll_turns (o : LoopOpts η) (env : LoopEnv η P υ ω) (io : LoopIo P υ) (c : Conn η ω)
    (ok : Bool) : Turns io c (onPoll o env io c ok).1 (onPoll o env io c ok).2.1 := by
  unfold onPoll
  split_ifs
  · exact (Effect.refl io c).turns rfl rfl
  · exact (closeConn_effect io _).turns rfl rfl
  · simp only
    split
    case h_1 => exact (Effect.refl io _).turns rfl rfl
    case h_2 ssl hssl =>
      obtain ⟨c₁, hst, hfd, heff⟩ :=
        handleTlsPoll_turns o env io ({ c with pollPending := false } : Conn η ω) ssl
      exact (closeOnError_effect (r := (_, _, _)) heff).turns hst hfd

/-! ## The counter -/

/-- Whether a slot is in use, as a number. -/
def liveNum (c : Conn η ω) : ℕ := if c.state ≠ .free then 1 else 0

/-- **The counter follows one slot.** Beside `n` other slots in use, the counter counts this one. -/
theorem Turns.counted {io io' : LoopIo P υ} {c c' : Conn η ω} (h : Turns io c io' c')
    (huse : InUse c) {n : ℕ} (hn : n < 2 ^ 32)
    (hactive : io.active = some (UInt64.ofNat (n + liveNum c))) :
    InUse c' ∧ io'.active = some (UInt64.ofNat (n + liveNum c')) := by
  by_cases hst : c.state = .free
  · obtain ⟨hst', hfd, hsame⟩ := h.free hst
    refine ⟨?_, ?_⟩
    · exact ⟨fun h => absurd hst' h, fun h => absurd hst (huse.mpr (hfd ▸ h))⟩
    · rw [hsame, hactive, liveNum, liveNum, hst, hst']
  · rw [liveNum, if_pos hst] at hactive
    rcases h.live hst with ⟨hst', hfd, hsame⟩ | ⟨hst', hfd, hdrop⟩
    · refine ⟨?_, ?_⟩
      · rw [InUse, hfd]
        exact iff_of_true hst' (huse.mp hst)
      · rw [hsame, hactive, liveNum, if_pos hst']
    · refine ⟨?_, ?_⟩
      · rw [InUse, hst', hfd]
        simp
      · have hpos : UInt64.ofNat (n + 1) > 0 := by
          rw [gt_iff_lt, UInt64.lt_iff_toNat_lt, UInt64.toNat_ofNat', Nat.mod_eq_of_lt (by omega)]
          exact Nat.succ_pos n
        have hpred : UInt64.ofNat (n + 1) - 1 = UInt64.ofNat n := by
          rw [UInt64.ofNat_add]
          exact UInt64.add_sub_cancel _ _
        rw [hdrop, dropped, if_pos (huse.mp hst), hactive, Option.map_some, if_pos hpos, hpred,
          liveNum, hst']
        rfl

theorem liveCount_cons (c : Conn η ω) (cs : List (Conn η ω)) :
    liveCount (c :: cs) = liveCount cs + liveNum c := by
  rw [liveCount, List.countP_cons, liveCount, liveNum]
  by_cases h : c.state = .free <;> simp [h]

theorem liveNum_le {c : Conn η ω} {cs : List (Conn η ω)} (h : c ∈ cs) : liveNum c ≤ liveCount cs := by
  unfold liveNum
  split_ifs with hlive
  · exact List.countP_pos_iff.mpr ⟨c, h, decide_eq_true hlive⟩
  · exact Nat.zero_le _

theorem liveCount_le (cs : List (Conn η ω)) : liveCount cs ≤ cs.length := List.countP_le_length

/-- The fan-out keeps the slots counted, by induction on the slots; `n` counts those before. -/
theorem wsFlushAllPending_counted (o : LoopOpts η) (env : LoopEnv η P υ ω) (cs : List (Conn η ω)) :
    ∀ (io : LoopIo P υ) (n : ℕ), n + cs.length < 2 ^ 32 → (∀ c ∈ cs, InUse c) →
      io.active = some (UInt64.ofNat (n + liveCount cs)) →
      let r := wsFlushAllPending o env io cs
      (∀ c ∈ r.2, InUse c) ∧ r.1.active = some (UInt64.ofNat (n + liveCount r.2)) := by
  induction cs with
  | nil => exact fun io n _ huse hactive => ⟨huse, hactive⟩
  | cons c cs ih =>
    intro io n hn huse hactive r
    rw [liveCount_cons, ← Nat.add_assoc] at hactive
    have hle := liveCount_le cs
    rw [List.length_cons] at hn
    obtain ⟨huse', hactive'⟩ := ((flushPending_effect o env io c).turns rfl rfl).counted
      (huse c List.mem_cons_self) (n := n + liveCount cs) (by omega) hactive
    have hnum : liveNum (flushPending o env io c).2 ≤ 1 := by
      unfold liveNum
      split_ifs <;> omega
    obtain ⟨hrest, hcount⟩ := ih (flushPending o env io c).1
      (n + liveNum (flushPending o env io c).2) (by omega)
      (fun x hx => huse x (List.mem_cons_of_mem c hx))
      (by rw [hactive', Nat.add_right_comm])
    refine ⟨?_, ?_⟩
    · intro x hx
      rcases List.mem_cons.mp hx with rfl | hx
      · exact huse'
      · exact hrest x hx
    · rw [show r.1.active = _ from hcount, show liveCount r.2 = _ from liveCount_cons _ _,
        Nat.add_assoc, Nat.add_comm (liveNum _)]

theorem wsFlushAllPending_length (o : LoopOpts η) (env : LoopEnv η P υ ω) (cs : List (Conn η ω)) :
    ∀ io : LoopIo P υ, (wsFlushAllPending o env io cs).2.length = cs.length := by
  induction cs with
  | nil => exact fun io => rfl
  | cons c cs ih => exact fun io => congrArg Nat.succ (ih _)

theorem flushAll_counted (o : LoopOpts η) (env : LoopEnv η P υ ω) {srv : Server η P υ ω}
    (hlen : srv.conns.length < 2 ^ 31) (h : SlotsCounted srv) : SlotsCounted (flushAll o env srv) := by
  obtain ⟨huse, hcount⟩ := wsFlushAllPending_counted o env srv.conns srv.io 0 (by omega) h.inUse
    (by rw [Nat.zero_add, h.counted])
  refine ⟨huse, ?_⟩
  rw [Nat.zero_add] at hcount
  exact hcount

/-- Slots and counter are all that matters. -/
theorem SlotsCounted.congr {srv srv' : Server η P υ ω} (h : SlotsCounted srv)
    (hconns : srv'.conns = srv.conns) (hactive : srv'.io.active = srv.io.active) :
    SlotsCounted srv' := ⟨hconns ▸ h.inUse, by rw [hactive, hconns, h.counted]⟩

/-- **One slot of a server.** What a slot becomes is counted if the slots were counted before. -/
theorem set_counted {srv : Server η P υ ω} (hlen : srv.conns.length < 2 ^ 31)
    (huse : ∀ c ∈ srv.conns, InUse c) {i : ℕ} {c c₁ c' : Conn η ω} (hc : srv.conns[i]? = some c)
    {io io' : LoopIo P υ} (h : Turns io c₁ io' c') (huse₁ : InUse c₁)
    (hactive : io.active = some (UInt64.ofNat (liveCount srv.conns - liveNum c + liveNum c₁))) :
    SlotsCounted { srv with io := io', conns := srv.conns.set i c' } := by
  have hle := liveCount_le srv.conns
  obtain ⟨huse', hactive'⟩ := h.counted huse₁ (n := liveCount srv.conns - liveNum c) (by omega)
    hactive
  -- The other slots are counted on both sides.
  have hset : liveCount (srv.conns.set i c') + liveNum c = liveCount srv.conns + liveNum c' := by
    have hadd := countP_set_add (fun c : Conn η ω => decide (c.state ≠ .free)) c' hc
    simp only [decide_eq_true_eq] at hadd
    exact hadd
  have hpos := liveNum_le (List.mem_of_getElem? hc)
  refine ⟨?_, ?_⟩
  · intro x hx
    rcases List.mem_or_eq_of_mem_set hx with hx | rfl
    · exact huse x hx
    · exact huse'
  · show io'.active = some (UInt64.ofNat (liveCount (srv.conns.set i c')))
    rw [hactive', show liveCount srv.conns - liveNum c + liveNum c' = liveCount (srv.conns.set i c')
      by omega]

theorem atSlot_counted (o : LoopOpts η) (env : LoopEnv η P υ ω) {srv : Server η P υ ω}
    (hlen : srv.conns.length < 2 ^ 31) (h : SlotsCounted srv) (slot : ℕ)
    {f : LoopIo P υ → Conn η ω → LoopIo P υ × Conn η ω × Bool}
    (hf : ∀ io c, Turns io c (f io c).1 (f io c).2.1) : SlotsCounted (atSlot o env srv slot f) := by
  unfold atSlot
  cases hc : srv.conns[slot]? with
  | none => exact h
  | some c =>
    have hpos := liveNum_le (List.mem_of_getElem? hc)
    have hset := set_counted hlen h.inUse hc (hf srv.io c) (h.inUse c (List.mem_of_getElem? hc))
      (by rw [Nat.sub_add_cancel hpos, h.counted])
    simp only
    split_ifs
    · exact flushAll_counted o env (by rwa [List.length_set]) hset
    · exact hset

/-! ## Accepts -/

/-- A connection that is not opened leaves a free slot. -/
theorem openedOr_failed {r : LoopIo P υ × Conn η ω × ℤ} (h : (openedOr r).2.2 = -1) :
    (openedOr r).2.1.state = .free := by
  unfold openedOr at h ⊢
  split_ifs at h ⊢
  exact closeConn_free r.1 r.2.1

theorem openConn_failed {o : LoopOpts η} {env : LoopEnv η P υ ω} {tls : Bool} {io : LoopIo P υ}
    {c : Conn η ω} {clientFd : ℕ} (h : (openConn o env tls io c clientFd).2.2 = -1) :
    (openConn o env tls io c clientFd).2.1.state = .free := by
  unfold openConn openTls at h ⊢
  split_ifs at h ⊢
  all_goals exact openedOr_failed h

theorem freeSlot_eq_some {conns : List (Conn η ω)} {i : ℕ} (h : freeSlot conns = some i) :
    ∃ c, conns[i]? = some c ∧ c.state = .free := by
  obtain ⟨hi, hc, -⟩ := List.findIdx?_eq_some_iff_getElem.mp h
  exact ⟨conns[i], List.getElem?_eq_getElem hi, of_decide_eq_true hc⟩

theorem freeSlot_eq_none {conns : List (Conn η ω)} (h : freeSlot conns = none) :
    ¬ ∃ c ∈ conns, c.state = .free := by
  rintro ⟨c, hc, hfree⟩
  have hno := List.findIdx?_eq_none_iff.mp h c hc
  exact absurd hfree (of_decide_eq_false hno)

theorem allocConn_complete (o : LoopOpts η) (env : LoopEnv η P υ ω) (slot born : ℕ) :
    (allocConn o env slot born).2 = true ↔ env.allocSendBuf = true ∧ env.allocServe = true := by
  unfold allocConn
  cases env.allocSendBuf <;> cases env.allocServe <;> simp

/-- **An accept keeps the slots counted unless it takes a slot and then finds no memory.** -/
theorem acceptOne_counted_iff (o : LoopOpts η) (env : LoopEnv η P υ ω) (tls : Bool)
    {srv : Server η P υ ω} (hlen : srv.conns.length < 2 ^ 31) (h : SlotsCounted srv)
    (clientFd : ℕ) : SlotsCounted (acceptOne o env tls srv clientFd).1 ↔
      ¬ (env.nonblock = true ∧ (∃ c ∈ srv.conns, c.state = .free) ∧
        ¬ (env.allocSendBuf = true ∧ env.allocServe = true)) := by
  unfold acceptOne
  cases hnb : env.nonblock with
  | false => exact iff_of_true h (by simp)
  | true =>
    simp only [Bool.not_true, Bool.false_eq_true, if_false, true_and]
    cases hslot : freeSlot srv.conns with
    | none =>
      have hno := freeSlot_eq_none hslot
      exact iff_of_true (h.congr rfl (count_active fun _ => rfl)) fun hex => hno hex.1
    | some i =>
      obtain ⟨c, hc, hfree⟩ := freeSlot_eq_some hslot
      have hmem := List.mem_of_getElem? hc
      simp only
      by_cases halloc : env.allocSendBuf = true ∧ env.allocServe = true
      · have hnew : allocConn o env i srv.births = (newConn o i srv.births, true) := by
          unfold allocConn
          rw [halloc.1, halloc.2]
          rfl
        rw [hnew]
        refine iff_of_true ?_ fun hex => hex.2 halloc
        obtain ⟨io₁, c₁, hst, hfd, -, hactive, heff⟩ :=
          openConn_effect o env tls srv.io i srv.births clientFd
        have hset := set_counted hlen h.inUse hc (heff.turns rfl rfl)
          (iff_of_true hst (by rw [hfd]; rfl) : InUse c₁)
          (by
            rw [hactive, h.counted, liveNum, liveNum, hfree, if_pos hst]
            exact congrArg some (UInt64.ofNat_add _ _).symm)
        exact hset.congr rfl rfl
      · have hno : (allocConn o env i srv.births).2 = false := by
          rw [← Bool.not_eq_true, allocConn_complete]
          exact halloc
        rw [hno]
        -- The slot is taken, in `recv`, and has no descriptor.
        refine iff_of_false ?_ (not_not.mpr ⟨⟨c, hmem, hfree⟩, halloc⟩)
        intro hcounted
        have hlost := hcounted.inUse (allocConn o env i srv.births).1
          (List.mem_set (List.getElem?_eq_some_iff.mp hc).1 _)
        have hrecv : (allocConn o env i srv.births).1.state = .recv ∧
            (allocConn o env i srv.births).1.fd = none := by
          unfold allocConn
          split_ifs <;> exact ⟨rfl, rfl⟩
        rw [InUse, hrecv.1, hrecv.2] at hlost
        exact absurd (hlost.mp (by decide)) (by simp)

/-- An accept that fails, and finds memory, leaves the states alone. -/
theorem acceptOne_rollsBack {o : LoopOpts η} {env : LoopEnv η P υ ω} {tls : Bool}
    {srv : Server η P υ ω} {clientFd : ℕ}
    (hmem : ¬ (env.nonblock = true ∧ (∃ c ∈ srv.conns, c.state = .free) ∧
      ¬ (env.allocSendBuf = true ∧ env.allocServe = true)))
    (hfailed : (acceptOne o env tls srv clientFd).2 = -1) :
    (acceptOne o env tls srv clientFd).1.conns.map Conn.state = srv.conns.map Conn.state := by
  unfold acceptOne at hfailed ⊢
  cases hnb : env.nonblock with
  | false => rfl
  | true =>
    simp only [hnb, Bool.not_true, Bool.false_eq_true, if_false] at hfailed ⊢
    cases hslot : freeSlot srv.conns with
    | none => rfl
    | some i =>
      obtain ⟨c, hc, hfree⟩ := freeSlot_eq_some hslot
      have halloc : (allocConn o env i srv.births).2 = true := by
        rw [allocConn_complete]
        by_contra hno
        exact hmem ⟨hnb, ⟨c, List.mem_of_getElem? hc, hfree⟩, hno⟩
      simp only [hslot, halloc, Bool.not_true, Bool.false_eq_true, if_false] at hfailed ⊢
      -- What was not opened is free again, as the slot was before.
      rw [List.map_set, openConn_failed hfailed]
      refine List.ext_getElem? fun j => ?_
      rw [List.getElem?_set]
      split_ifs with hj hlt
      · rw [← hj, List.getElem?_map, hc, Option.map_some, hfree]
      · rw [← hj, List.getElem?_eq_none (not_lt.mp hlt)]
      · rfl

/-! ## Steps -/

theorem submitAccept_counted (o : LoopOpts η) {srv : Server η P υ ω} :
    SlotsCounted (submitAccept o srv) ↔ SlotsCounted srv := by
  have hsame : (submitAccept o srv).conns = srv.conns ∧
      (submitAccept o srv).io.active = srv.io.active := by
    unfold submitAccept
    split_ifs
    · exact ⟨rfl, rfl⟩
    · exact ⟨rfl, rfl⟩
    · cases hsqe : getSqe o srv.io ⟨.accept, 0, 0⟩ with
      | none => exact ⟨rfl, rfl⟩
      | some io => exact ⟨rfl, getSqe_active hsqe⟩
  exact ⟨fun h => h.congr hsame.1.symm hsame.2.symm, fun h => h.congr hsame.1 hsame.2⟩

theorem ioUringSubmit_counted {srv : Server η P υ ω} {taken : ℕ} :
    SlotsCounted (ioUringSubmit srv taken) ↔ SlotsCounted srv :=
  ⟨fun h => h.congr rfl rfl, fun h => h.congr rfl rfl⟩

theorem onTimeout_counted (o : LoopOpts η) (env : LoopEnv η P υ ω) (again : ℕ → SslAnswers)
    {srv : Server η P υ ω} (hlen : srv.conns.length < 2 ^ 31) (h : SlotsCounted srv) :
    SlotsCounted (onTimeout o env again srv) := by
  have hflush := flushAll_counted o env hlen h
  have hlen' : (flushAll o env srv).conns.length < 2 ^ 31 := by
    rwa [show (flushAll o env srv).conns.length = _ from wsFlushAllPending_length o env _ _]
  unfold onTimeout
  simp only
  cases (flushAll o env srv).io.world.store with
  | none => exact hflush
  | some st =>
    simp only
    split_ifs
    · exact hflush
    · exact flushAll_counted o _ hlen' (hflush.congr rfl rfl)
    · exact hflush.congr rfl rfl

/-- A completion is taken up, or nothing happens. -/
theorem completeOp_counted {o : LoopOpts η} {srv : Server η P υ ω} {sqe : Sqe} {taken : ℕ}
    {f : Server η P υ ω → Server η P υ ω} (h : SlotsCounted srv)
    (hf : ∀ srv' : Server η P υ ω, srv'.conns = srv.conns → SlotsCounted srv' →
      SlotsCounted (f srv')) : SlotsCounted (completeOp o srv sqe taken f) := by
  unfold completeOp
  split_ifs
  · exact h
  · exact ioUringSubmit_counted.mpr (hf _ rfl (h.congr rfl rfl))

theorem onAccept_counted_iff (o : LoopOpts η) (env : LoopEnv η P υ ω) (tls : Bool)
    {srv : Server η P υ ω} (hlen : srv.conns.length < 2 ^ 31) (h : SlotsCounted srv)
    (clientFd : ℕ) : SlotsCounted (onAccept o env tls srv (.ok clientFd)) ↔
      ¬ (env.nonblock = true ∧ (∃ c ∈ srv.conns, c.state = .free) ∧
        ¬ (env.allocSendBuf = true ∧ env.allocServe = true)) := by
  let ready : Server η P υ ω := { srv with acceptPending := false }
  have hready : ready.conns.length < 2 ^ 31 := hlen
  exact (submitAccept_counted o).trans
    (acceptOne_counted_iff o env tls hready (h.congr rfl rfl) clientFd)

/-- **A step keeps the slots counted exactly when it strands none.** -/
theorem loopStep_counted_iff (o : LoopOpts η) (tls : Bool) {srv : Server η P υ ω}
    (hlen : srv.conns.length < 2 ^ 31) (h : SlotsCounted srv) (ev : LoopEvent η P υ ω) :
    SlotsCounted (loopStep o tls srv ev) ↔ ¬ Strands o srv ev := by
  cases ev with
  | accepted env res taken =>
    cases res with
    | error e =>
      have hstep : SlotsCounted (completeOp o srv ⟨.accept, 0, 0⟩ taken fun srv =>
          onAccept o env tls srv (.error e)) :=
        completeOp_counted h fun _ _ h' => (submitAccept_counted o).mpr (h'.congr rfl rfl)
      exact iff_of_true hstep id
    -- The only turn that can lose a slot.
    | ok clientFd =>
      by_cases hrun : shouldStop o srv ∨ ⟨.accept, 0, 0⟩ ∉ srv.inFlight
      · rw [loopStep, completeOp, if_pos hrun]
        refine iff_of_true h fun hstrands => ?_
        rcases hrun with hstop | hnone
        · exact absurd hstop (by rw [hstrands.1.1]; simp)
        · exact hnone hstrands.1.2
      · rw [loopStep, completeOp, if_neg hrun, ioUringSubmit_counted]
        rw [not_or, not_not, Bool.not_eq_true] at hrun
        let taken : Server η P υ ω := { srv with inFlight := srv.inFlight.erase ⟨.accept, 0, 0⟩ }
        have htaken : taken.conns.length < 2 ^ 31 := hlen
        refine (onAccept_counted_iff o env tls htaken (h.congr rfl rfl) clientFd).trans
          (not_congr ?_)
        exact ⟨fun hno => ⟨hrun, hno⟩, fun hstrands => hstrands.2⟩
  | received env slot owner res taken =>
    exact iff_of_true (completeOp_counted h fun _ hconns h' =>
      atSlot_counted o env (hconns ▸ hlen) h' slot fun io c => by
        obtain ⟨c₁, hsame, heff⟩ := onRecv_effect o env io c res
        exact heff.turns hsame.state hsame.fd) id
  | sent env slot owner res taken =>
    exact iff_of_true (completeOp_counted h fun _ hconns h' =>
      atSlot_counted o env (hconns ▸ hlen) h' slot fun io c => by
        obtain ⟨c₁, hsame, heff⟩ := onSend_effect o env io c res
        exact heff.turns hsame.state hsame.fd) id
  | polled env slot owner wantWrite ok taken =>
    exact iff_of_true (completeOp_counted h fun _ hconns h' =>
      atSlot_counted o env (hconns ▸ hlen) h' slot fun io c => onPoll_turns o env io c ok) id
  | timeout env again taken =>
    refine iff_of_true ?_ id
    rw [loopStep]
    split_ifs
    · exact h
    · exact ioUringSubmit_counted.mpr (onTimeout_counted o env again hlen h)

/-! ## The number of slots -/

theorem flushAll_length (o : LoopOpts η) (env : LoopEnv η P υ ω) (srv : Server η P υ ω) :
    (flushAll o env srv).conns.length = srv.conns.length :=
  wsFlushAllPending_length o env srv.conns srv.io

theorem atSlot_length (o : LoopOpts η) (env : LoopEnv η P υ ω) (srv : Server η P υ ω) (slot : ℕ)
    (f : LoopIo P υ → Conn η ω → LoopIo P υ × Conn η ω × Bool) :
    (atSlot o env srv slot f).conns.length = srv.conns.length := by
  unfold atSlot
  cases srv.conns[slot]? with
  | none => rfl
  | some c =>
    simp only
    split_ifs
    · rw [flushAll_length, List.length_set]
    · exact List.length_set

theorem acceptOne_length (o : LoopOpts η) (env : LoopEnv η P υ ω) (tls : Bool)
    (srv : Server η P υ ω) (clientFd : ℕ) :
    (acceptOne o env tls srv clientFd).1.conns.length = srv.conns.length := by
  unfold acceptOne
  split_ifs
  · rfl
  · cases freeSlot srv.conns with
    | none => rfl
    | some i =>
      simp only
      split_ifs
      · exact List.length_set
      · exact List.length_set

theorem submitAccept_conns (o : LoopOpts η) (srv : Server η P υ ω) :
    (submitAccept o srv).conns = srv.conns := by
  unfold submitAccept
  split_ifs
  · rfl
  · rfl
  · cases getSqe o srv.io ⟨.accept, 0, 0⟩ <;> rfl

theorem onTimeout_length (o : LoopOpts η) (env : LoopEnv η P υ ω) (again : ℕ → SslAnswers)
    (srv : Server η P υ ω) : (onTimeout o env again srv).conns.length = srv.conns.length := by
  have hflush := flushAll_length o env srv
  unfold onTimeout
  simp only
  cases (flushAll o env srv).io.world.store with
  | none => exact hflush
  | some st =>
    simp only
    split_ifs
    · exact hflush
    · exact (flushAll_length o _ _).trans hflush
    · exact hflush

theorem completeOp_length {o : LoopOpts η} {srv : Server η P υ ω} {sqe : Sqe} {taken : ℕ}
    {f : Server η P υ ω → Server η P υ ω}
    (hf : ∀ srv' : Server η P υ ω, (f srv').conns.length = srv'.conns.length) :
    (completeOp o srv sqe taken f).conns.length = srv.conns.length := by
  unfold completeOp
  split_ifs
  · rfl
  · exact hf _

theorem loopStep_length (o : LoopOpts η) (tls : Bool) (srv : Server η P υ ω)
    (ev : LoopEvent η P υ ω) : (loopStep o tls srv ev).conns.length = srv.conns.length := by
  cases ev with
  | accepted env res taken =>
    refine completeOp_length fun srv' => (congrArg List.length (submitAccept_conns o _)).trans ?_
    cases res with
    | error e => rfl
    | ok clientFd => exact acceptOne_length o env tls { srv' with acceptPending := false } clientFd
  | received env slot owner res taken => exact completeOp_length fun _ => atSlot_length ..
  | sent env slot owner res taken => exact completeOp_length fun _ => atSlot_length ..
  | polled env slot owner wantWrite ok taken => exact completeOp_length fun _ => atSlot_length ..
  | timeout env again taken =>
    rw [loopStep]
    split_ifs
    · rfl
    · exact onTimeout_length o env again srv

/-! ## Connections in their slots -/

/-- The completion that a turn of the loop hands to the connection in a slot. -/
def LoopEvent.toConn (io : LoopIo P υ) : LoopEvent η P υ ω → Option (ℕ × ConnEvent η P υ ω)
  | .received env slot _ res _ => some (slot, .recv env io res)
  | .sent env slot _ res _ => some (slot, .send env io res)
  | .polled env slot _ _ ok _ => some (slot, .poll env io ok)
  | _ => none

/-- The connection in the slot takes the completion in a way that is permitted. -/
def Hands (ok : Conn η ω → ConnEvent η P υ ω → Prop) (srv : Server η P υ ω)
    (ev : LoopEvent η P υ ω) : Prop :=
  ∀ p ∈ ev.toConn srv.io, ∀ c, srv.conns[p.1]? = some c → ok c p.2

/-- A property of connections that a server keeps on its own: it holds of free slots and of what an
accept leaves, and a fan-out keeps it. -/
structure Upheld (o : LoopOpts η) (tls : Bool) (P υ : Type*) (Q : Conn η ω → Prop) : Prop where
  idle : ∀ slot, Q (Conn.idle slot)
  opened : ∀ (env : LoopEnv η P υ ω) io slot born clientFd,
    Q (accepted o env tls io slot born clientFd)
  refused : ∀ (env : LoopEnv η P υ ω) slot born, Q (allocConn o env slot born).1
  fanOut : ∀ (env : LoopEnv η P υ ω) io c, Q c → Q (flushPending o env io c).2

section Each

variable {o : LoopOpts η} {tls : Bool} {Q : Conn η ω → Prop}

theorem set_each {conns : List (Conn η ω)} (h : ∀ c ∈ conns, Q c) (i : ℕ) {c : Conn η ω} (hc : Q c) :
    ∀ x ∈ conns.set i c, Q x := by
  intro x hx
  rcases List.mem_or_eq_of_mem_set hx with hx | rfl
  · exact h x hx
  · exact hc

theorem wsFlushAllPending_each (hQ : Upheld o tls P υ Q) (env : LoopEnv η P υ ω)
    (cs : List (Conn η ω)) : ∀ io, (∀ c ∈ cs, Q c) → ∀ c ∈ (wsFlushAllPending o env io cs).2, Q c := by
  induction cs with
  | nil => exact fun io h => h
  | cons c cs ih =>
    intro io h x hx
    rcases List.mem_cons.mp hx with rfl | hx
    · exact hQ.fanOut env io c (h c List.mem_cons_self)
    · exact ih _ (fun y hy => h y (List.mem_cons_of_mem c hy)) x hx

theorem acceptOne_each (hQ : Upheld o tls P υ Q) (env : LoopEnv η P υ ω) {srv : Server η P υ ω}
    (h : ∀ c ∈ srv.conns, Q c) (clientFd : ℕ) :
    ∀ c ∈ (acceptOne o env tls srv clientFd).1.conns, Q c := by
  unfold acceptOne
  split_ifs
  · exact h
  cases freeSlot srv.conns with
  | none => exact h
  | some i =>
    simp only
    split_ifs with halloc
    · exact set_each h i (hQ.refused env i srv.births)
    · have hnew : (allocConn o env i srv.births).1 = newConn o i srv.births := by
        unfold allocConn at halloc ⊢
        split_ifs at halloc ⊢
        · exact absurd rfl halloc
        · exact absurd rfl halloc
        · rfl
      rw [hnew]
      exact set_each h i (hQ.opened env srv.io i srv.births clientFd)

theorem onTimeout_each (hQ : Upheld o tls P υ Q) (env : LoopEnv η P υ ω) (again : ℕ → SslAnswers)
    {srv : Server η P υ ω} (h : ∀ c ∈ srv.conns, Q c) :
    ∀ c ∈ (onTimeout o env again srv).conns, Q c := by
  have hflush : ∀ c ∈ (flushAll o env srv).conns, Q c := wsFlushAllPending_each hQ env _ _ h
  unfold onTimeout
  simp only
  cases (flushAll o env srv).io.world.store with
  | none => exact hflush
  | some st =>
    simp only
    split_ifs
    · exact hflush
    · exact wsFlushAllPending_each hQ _ _ _ hflush
    · exact hflush

theorem atSlot_each (hQ : Upheld o tls P υ Q) (env : LoopEnv η P υ ω) {srv : Server η P υ ω}
    (h : ∀ c ∈ srv.conns, Q c) {slot : ℕ}
    {f : LoopIo P υ → Conn η ω → LoopIo P υ × Conn η ω × Bool}
    (hf : ∀ c, srv.conns[slot]? = some c → Q (f srv.io c).2.1) :
    ∀ c ∈ (atSlot o env srv slot f).conns, Q c := by
  unfold atSlot
  cases hc : srv.conns[slot]? with
  | none => exact h
  | some c =>
    have hset := set_each h slot (hf c hc)
    simp only
    split_ifs
    · exact wsFlushAllPending_each hQ env _ _ hset
    · exact hset

theorem completeOp_each {srv : Server η P υ ω} {sqe : Sqe} {taken : ℕ}
    {f : Server η P υ ω → Server η P υ ω} (h : ∀ c ∈ srv.conns, Q c)
    (hf : ∀ inFlight, ∀ c ∈ (f { srv with inFlight }).conns, Q c) :
    ∀ c ∈ (completeOp o srv sqe taken f).conns, Q c := by
  unfold completeOp
  split_ifs
  · exact h
  · exact hf _

/-- **From one connection to all slots.** A turn of the loop keeps what the server upholds, if the
completion that it hands to a connection keeps it. -/
theorem loopStep_each (hQ : Upheld o tls P υ Q) {ok : Conn η ω → ConnEvent η P υ ω → Prop}
    (hstep : ∀ c e, Q c → ok c e → Q (connStep o c e)) (srv : Server η P υ ω)
    (ev : LoopEvent η P υ ω) (h : ∀ c ∈ srv.conns, Q c) (hands : Hands ok srv ev) :
    ∀ c ∈ (loopStep o tls srv ev).conns, Q c := by
  have hslot : ∀ p ∈ ev.toConn srv.io, ∀ c, srv.conns[p.1]? = some c → Q (connStep o c p.2) :=
    fun p hp c hc => hstep c p.2 (h c (List.mem_of_getElem? hc)) (hands p hp c hc)
  have hturn : ∀ (env : LoopEnv η P υ ω) (inFlight : List Sqe) (slot : ℕ)
      (f : LoopIo P υ → Conn η ω → LoopIo P υ × Conn η ω × Bool),
      (∀ c, srv.conns[slot]? = some c → Q (f srv.io c).2.1) →
        ∀ c ∈ (atSlot o env { srv with inFlight } slot f).conns, Q c := by
    intro env inFlight slot f hf
    let taken : Server η P υ ω := { srv with inFlight }
    have htaken : ∀ c ∈ taken.conns, Q c := h
    exact atSlot_each hQ env htaken hf
  cases ev with
  | accepted env res taken =>
    refine completeOp_each h fun inFlight => ?_
    show ∀ c ∈ (submitAccept o _).conns, Q c
    rw [submitAccept_conns]
    let ready : Server η P υ ω := { srv with inFlight, acceptPending := false }
    have hready : ∀ c ∈ ready.conns, Q c := h
    cases res with
    | error e => exact hready
    | ok clientFd => exact acceptOne_each hQ env hready clientFd
  | received env slot owner res taken =>
    exact completeOp_each h fun inFlight => hturn env inFlight slot _ fun c hc =>
      hslot (slot, .recv env srv.io res) rfl c hc
  | sent env slot owner res taken =>
    exact completeOp_each h fun inFlight => hturn env inFlight slot _ fun c hc =>
      hslot (slot, .send env srv.io res) rfl c hc
  | polled env slot owner wantWrite ok taken =>
    exact completeOp_each h fun inFlight => hturn env inFlight slot _ fun c hc =>
      hslot (slot, .poll env srv.io ok) rfl c hc
  | timeout env again taken =>
    rw [loopStep]
    split_ifs
    · exact h
    · exact onTimeout_each hQ env again h

/-- The rule for runs. -/
theorem always_each (hQ : Upheld o tls P υ Q) {ok : Conn η ω → ConnEvent η P υ ω → Prop}
    (hstep : ∀ c e, Q c → ok c e → Q (connStep o c e)) (maxConns : Fin (2 ^ 31))
    (world : ServeWorld P υ) (metrics : EdgeMetrics) {evs : List (LoopEvent η P υ ω)}
    (hands : EachStep (loopStep o tls) (Hands ok) (loopStart maxConns world metrics) evs) :
    Always (loopStep o tls) (fun srv => ∀ c ∈ srv.conns, Q c) (loopStart maxConns world metrics)
      evs := by
  refine EachStep.always (loopStep_each hQ hstep) ?_ hands
  intro c hc
  obtain ⟨slot, -, rfl⟩ := List.mem_map.mp hc
  exact hQ.idle slot

end Each

/-- What is in a slot when something new is in it. -/
inductive Begins (o : LoopOpts η) (tls : Bool) (P υ : Type*) : Conn η ω → Prop where
  | idle (slot : ℕ) : Begins o tls P υ (Conn.idle slot)
  | opened (env : LoopEnv η P υ ω) (io : LoopIo P υ) (slot born clientFd : ℕ) :
    Begins o tls P υ (accepted o env tls io slot born clientFd)
  | refused (env : LoopEnv η P υ ω) (slot born : ℕ) : Begins o tls P υ (allocConn o env slot born).1

/-- The connection has come through a run of its own. -/
def HasRun (o : LoopOpts η) (tls : Bool) (P υ : Type*) (c : Conn η ω) : Prop :=
  ∃ (c₀ : Conn η ω) (evs : List (ConnEvent η P υ ω)), Begins o tls P υ c₀ ∧
    runFrom (connStep o) c₀ evs = c

theorem HasRun.step {o : LoopOpts η} {tls : Bool} {c : Conn η ω} (h : HasRun o tls P υ c)
    (ev : ConnEvent η P υ ω) : HasRun o tls P υ (connStep o c ev) := by
  obtain ⟨c₀, evs, hbegins, rfl⟩ := h
  exact ⟨c₀, evs ++ [ev], hbegins, runFrom_append c₀ evs [ev]⟩

/-- **Slots go through runs of connections.** In every state of a run of the loop, every slot holds
what a run of `connStep` makes of a slot that was empty, accepted into, or refused. -/
theorem always_hasRun (o : LoopOpts η) (tls : Bool) (maxConns : Fin (2 ^ 31)) (world : ServeWorld P υ)
    (metrics : EdgeMetrics) (evs : List (LoopEvent η P υ ω)) :
    Always (loopStep o tls) (fun srv => ∀ c ∈ srv.conns, HasRun o tls P υ c)
      (loopStart maxConns world metrics) evs := by
  have hupheld : Upheld o tls P υ (HasRun (η := η) (ω := ω) o tls P υ) := by
    refine ⟨fun slot => ⟨_, [], .idle slot, rfl⟩, fun env io slot born fd => ?_, fun env slot born => ?_,
      fun env io c h => h.step (.fanOut env io)⟩
    · exact ⟨_, [], .opened env io slot born fd, rfl⟩
    · exact ⟨_, [], .refused env slot born, rfl⟩
  have hstep : ∀ (c : Conn η ω) (e : ConnEvent η P υ ω), HasRun o tls P υ c → True →
      HasRun o tls P υ (connStep o c e) := fun c e h _ => h.step e
  refine always_of_step (fun srv ev h => loopStep_each hupheld hstep srv ev h ?_) ?_ evs
  · exact fun _ _ _ _ => trivial
  · intro c hc
    obtain ⟨slot, -, rfl⟩ := List.mem_map.mp hc
    exact hupheld.idle slot

/-! ## Runs -/

theorem slotsCounted_start (maxConns : Fin (2 ^ 31)) (world : ServeWorld P υ)
    (metrics : EdgeMetrics) :
    SlotsCounted (loopStart maxConns world metrics : Server η P υ ω) := by
  have hidle : ∀ c ∈ (loopStart maxConns world metrics : Server η P υ ω).conns,
      c.state = .free ∧ c.fd = none := by
    intro c hc
    obtain ⟨i, -, rfl⟩ := List.mem_map.mp hc
    exact ⟨rfl, rfl⟩
  refine ⟨fun c hc => ?_, ?_⟩
  · rw [InUse, (hidle c hc).1, (hidle c hc).2]
    simp
  · have hnone : liveCount (loopStart maxConns world metrics : Server η P υ ω).conns = 0 :=
      List.countP_eq_zero.mpr fun c hc => by simp [(hidle c hc).1]
    rw [hnone]
    rfl

/-- **The counter of live connections.** A run keeps the slots counted, and its failed accepts leave
the slots alone, exactly when no accept of it takes a slot and then finds no memory. -/
theorem always_slotsCounted_iff (o : LoopOpts η) (tls : Bool) (maxConns : Fin (2 ^ 31))
    (world : ServeWorld P υ) (metrics : EdgeMetrics) (evs : List (LoopEvent η P υ ω)) :
    (Always (loopStep o tls) SlotsCounted (loopStart maxConns world metrics) evs ∧
        EachStep (loopStep o tls) (RollsBack o tls) (loopStart maxConns world metrics) evs) ↔
      EachStep (loopStep o tls) (fun srv ev => ¬ Strands o srv ev)
        (loopStart maxConns world metrics) evs := by
  have hlen : (loopStart maxConns world metrics : Server η P υ ω).conns.length < 2 ^ 31 := by
    rw [loopStart, List.length_map, List.length_range]
    exact maxConns.isLt
  have hkeeps : ∀ (srv : Server η P υ ω) (ev : LoopEvent η P υ ω), srv.conns.length < 2 ^ 31 →
      (loopStep o tls srv ev).conns.length < 2 ^ 31 :=
    fun srv ev h => by rwa [loopStep_length o tls srv ev]
  have hiff := always_iff_eachStep hkeeps
    (fun srv ev h hP => loopStep_counted_iff o tls h hP ev) hlen
    (slotsCounted_start maxConns world metrics) evs
  refine ⟨fun h => hiff.mp h.1, fun h => ⟨hiff.mpr h, h.mono fun srv ev hno => ?_⟩⟩
  cases ev with
  | accepted env res taken =>
    cases res with
    | error e => trivial
    | ok clientFd => exact fun hruns => acceptOne_rollsBack fun hmem => hno ⟨hruns, hmem⟩
  | received env slot owner res taken => trivial
  | sent env slot owner res taken => trivial
  | polled env slot owner wantWrite ok taken => trivial
  | timeout env again taken => trivial

/-- A client is accepted when there is no memory for its send buffer. -/
def strandedEvs : List (LoopEvent Unit Unit Unit Bytes) :=
  [.accepted { streamEnv [] [] with allocSendBuf := false } (.ok 5) 1]

/-- The slot of that client is in use from then on, without a descriptor, and not counted. -/
theorem not_always_slotsCounted_stranded :
    let start : Server Unit Unit Unit Bytes := loopStart 1 streamWorld
      (edgeMetricsInit (streamEnv [] []).serve.clock)
    let srv := runFrom (loopStep streamOpts true) start strandedEvs
    (srv.conns.map fun c => (c.state, c.fd)) = [(.recv, none)] ∧ srv.io.active = some 0 ∧
      ¬ (Always (loopStep streamOpts true) SlotsCounted start strandedEvs ∧
        EachStep (loopStep streamOpts true) (RollsBack streamOpts true) start strandedEvs) := by
  intro start srv
  have hconns : (srv.conns.map fun c => (c.state, c.fd)) = [(.recv, none)] := by decide +kernel
  refine ⟨hconns, by decide +kernel, fun h => ?_⟩
  have hcount : srv.io.active = some (UInt64.ofNat (liveCount srv.conns)) := h.1.last.counted
  exact absurd hcount (by decide +kernel)

end Edgehost.Tls
