import Edgehost.Host.PlainConns
import Edgehost.Host.Startup

/-!
# The two loops are one

With `tls` false the full loop does what the plain loop does, turn by turn: the connections stand
for each other slot by slot (`Aligned`), and the rest of the server is the same (`AtPlain`).

* `onRecv_plain`, `onSend_plain`, `onAccept_plain`, `onTimeout_plain` — the completions.
* `loopStep_plain` — a turn.
* `loop_plain` — every run.
* `started_plain` — what is proved of a process over plain TCP is proved of the full loop.
-/

namespace Edgehost.Tls

variable {η P υ ω : Type*}

/-! ## The slots -/

/-- The slots from `i` on, one by one. -/
inductive Aligned : ℕ → List (Edgehost.Conn η ω) → List (Conn η ω) → Prop
  | nil (i : ℕ) : Aligned i [] []
  | cons {i : ℕ} {c : Edgehost.Conn η ω} {t : Conn η ω} {cs : List (Edgehost.Conn η ω)}
      {ts : List (Conn η ω)} (head : Matches i c t) (tail : Aligned (i + 1) cs ts) :
      Aligned i (c :: cs) (t :: ts)

section Slots

variable {i : ℕ} {cs : List (Edgehost.Conn η ω)} {ts : List (Conn η ω)}

/-- What is in a slot. -/
theorem Aligned.getElem? (h : Aligned i cs ts) (n : ℕ) :
    (cs[n]? = none ∧ ts[n]? = none) ∨
      ∃ c t, cs[n]? = some c ∧ ts[n]? = some t ∧ Matches (i + n) c t := by
  induction h generalizing n with
  | nil i => exact .inl ⟨rfl, rfl⟩
  | @cons i c t cs ts head tail ih =>
    cases n with
    | zero => exact .inr ⟨c, t, rfl, rfl, head⟩
    | succ n =>
      rw [show i + (n + 1) = i + 1 + n by omega]
      exact ih n

/-- A slot is filled anew. -/
theorem Aligned.set (h : Aligned i cs ts) {n : ℕ} {c : Edgehost.Conn η ω} {t : Conn η ω}
    (hnew : Matches (i + n) c t) : Aligned i (cs.set n c) (ts.set n t) := by
  induction h generalizing n with
  | nil i => exact .nil i
  | @cons i c₀ t₀ cs ts head tail ih =>
    cases n with
    | zero => exact .cons hnew tail
    | succ n =>
      rw [show i + (n + 1) = i + 1 + n by omega] at hnew
      exact .cons head (ih hnew)

/-- Both loops look for a free slot in the same way. -/
theorem Aligned.freeSlot_eq (h : Aligned i cs ts) : freeSlot ts = Edgehost.freeSlot cs := by
  induction h with
  | nil i => rfl
  | @cons i c t cs ts head tail ih =>
    unfold freeSlot Edgehost.freeSlot at ih ⊢
    rw [List.findIdx?_cons, List.findIdx?_cons, ih]
    simp only [head.state, ConnState.ofPlain_eq_free]

/-- Whether all slots are free. -/
theorem Aligned.all_free (h : Aligned i cs ts) :
    (ts.all fun t => t.state = .free) = cs.all fun c => c.state = .free := by
  induction h with
  | nil i => rfl
  | @cons i c t cs ts head tail ih =>
    rw [List.all_cons, List.all_cons, ih]
    simp only [head.state, ConnState.ofPlain_eq_free]

/-- The fan-out goes through the slots in both loops. -/
theorem wsFlushAllPending_plain (o : LoopOpts η) (env : LoopEnv η P υ ω)
    (h : Aligned i cs ts) (io : Edgehost.LoopIo P υ) :
    let r := Edgehost.wsFlushAllPending o env.toLoopEnv io cs
    let r' := wsFlushAllPending o env (.ofPlain io) ts
    r'.1 = .ofPlain r.1 ∧ Aligned i r.2 r'.2 := by
  induction h generalizing io with
  | nil i => exact ⟨rfl, .nil i⟩
  | @cons i c t cs ts head tail ih =>
    obtain ⟨hio, hconn⟩ := flushPending_plain o env io head
    obtain ⟨hrest, hslots⟩ := ih (Edgehost.flushPending o env.toLoopEnv io c).1
    simp only [wsFlushAllPending, Edgehost.wsFlushAllPending, hio]
    exact ⟨hrest, .cons hconn hslots⟩

/-- At the start every slot is free. -/
theorem aligned_idle (n i : ℕ) : Aligned (η := η) (ω := ω) i
    ((List.range' i n).map Edgehost.Conn.idle) ((List.range' i n).map Conn.idle) := by
  induction n generalizing i with
  | zero => exact .nil i
  | succ n ih =>
    refine .cons ⟨rfl, ?_, [], _, rfl, ?_⟩ (ih (i + 1))
    · simp [Buffered, Edgehost.Conn.idle]
    · simp [Sends, Edgehost.Conn.idle]

end Slots

/-! ## The server -/

/-- A plain server, with the connections of the full loop in its slots. -/
def Server.ofPlain (srv : Edgehost.Server η P υ ω) (conns : List (Conn η ω)) : Server η P υ ω where
  conns := conns
  io := .ofPlain srv.io
  inFlight := srv.inFlight.map Sqe.ofPlain
  acceptsDone := srv.acceptsDone
  acceptPending := srv.acceptPending
  tick := srv.tick
  lastScrapeMs := srv.lastScrapeMs
  births := srv.births

/-- The full loop is where the plain loop is. -/
def AtPlain (srv : Edgehost.Server η P υ ω) (full : Server η P υ ω) : Prop :=
  ∃ conns, Aligned 0 srv.conns conns ∧ full = .ofPlain srv conns

section Turns

variable {srv : Edgehost.Server η P υ ω} {ts : List (Conn η ω)}

/-- The fan-out over the slots of a server. -/
theorem flushAll_plain (o : LoopOpts η) (env : LoopEnv η P υ ω) (h : Aligned 0 srv.conns ts) :
    AtPlain (Edgehost.flushAll o env.toLoopEnv srv) (flushAll o env (.ofPlain srv ts)) := by
  obtain ⟨hio, hslots⟩ := wsFlushAllPending_plain o env h srv.io
  refine ⟨_, hslots, ?_⟩
  unfold flushAll Edgehost.flushAll
  simp only [Server.ofPlain, hio]

/-- A connection is put back into its slot. -/
theorem put_plain (h : Aligned 0 srv.conns ts) {i : ℕ} {io : Edgehost.LoopIo P υ}
    {c : Edgehost.Conn η ω} {io' : LoopIo P υ} {t : Conn η ω} (hconn : Mirrors i io c io' t) :
    AtPlain (srv.put (io, c))
      { Server.ofPlain srv ts with io := io', conns := ts.set i t } := by
  obtain ⟨rfl, hc⟩ := hconn
  refine ⟨ts.set i t, ?_, rfl⟩
  have hset := h.set (n := i) (by rwa [Nat.zero_add])
  rwa [← hc.slot] at hset ⊢

/-- A handler that leaves the connection alone. -/
theorem put_same {i : ℕ} {t : Conn η ω} (h : ts[i]? = some t) : ts.set i t = ts := by
  obtain ⟨hi, rfl⟩ := List.getElem?_eq_some_iff.mp h
  exact List.set_getElem_self hi

/-- What a handler has come to, and the fan-out if it asks for one. -/
theorem settle_plain (o : LoopOpts η) (env : LoopEnv η P υ ω) (h : Aligned 0 srv.conns ts) {i : ℕ}
    {io : Edgehost.LoopIo P υ} {c : Edgehost.Conn η ω} {io' : LoopIo P υ} {t : Conn η ω}
    (hconn : Mirrors i io c io' t) (flush : Bool) :
    AtPlain
      (if flush then Edgehost.flushAll o env.toLoopEnv (srv.put (io, c)) else srv.put (io, c))
      (if flush then
        flushAll o env { Server.ofPlain srv ts with io := io', conns := ts.set i t }
      else { Server.ofPlain srv ts with io := io', conns := ts.set i t }) := by
  obtain ⟨ts', hslots, hfull⟩ := put_plain h hconn
  rw [hfull]
  split_ifs
  · exact flushAll_plain o env hslots
  · exact ⟨ts', hslots, rfl⟩

/-- A request has been handled: its connection is closed if that failed. -/
theorem answer_plain (o : LoopOpts η) (env : LoopEnv η P υ ω) (h : Aligned 0 srv.conns ts) {i : ℕ}
    {r : Edgehost.LoopIo P υ × Edgehost.Conn η ω × ℤ × Bool}
    {r' : LoopIo P υ × Conn η ω × ℤ × Bool} (hr : SameResult i r r') :
    let closed := closeOnError (r'.1, r'.2.1, r'.2.2.1)
    let full : Server η P υ ω :=
      { Server.ofPlain srv ts with io := closed.1, conns := ts.set i closed.2 }
    AtPlain
      (match r with
        | (io, c, rc, flush) =>
          let srv := srv.put (Edgehost.closeOnError (io, c, rc))
          if flush then Edgehost.flushAll o env.toLoopEnv srv else srv)
      (if r'.2.2.2 then flushAll o env full else full) := by
  obtain ⟨io, c, ⟨rc, flush⟩, t, rfl, rfl, hconn⟩ := hr.parts
  have hresult : SameResult i (io, c, rc) (.ofPlain io, t, rc) := ⟨⟨rfl, hconn⟩, rfl⟩
  exact settle_plain o env h (closeOnError_plain hresult) flush

/-- A frame has come in: the connection is closed, or waits for the next one. -/
theorem recvWs_plain (o : LoopOpts η) (env : LoopEnv η P υ ω) (h : Aligned 0 srv.conns ts) {i : ℕ}
    {c : Edgehost.Conn η ω} {t : Conn η ω} (hconn : Matches i c t) (data : Bytes) :
    let r := closeOnError (recvWs o env (.ofPlain srv.io) t data)
    AtPlain
      (match Edgehost.handleWsRecv o env.toLoopEnv srv.io c data with
        | (io, c, rc) =>
          if rc ≠ 0 then srv.put (Edgehost.closeConn io c)
          else if c.state = .wsRecv ∧ !c.recvPending then
            srv.put (Edgehost.closeOnError (Edgehost.submitRecv o io c))
          else srv.put (io, c))
      { Server.ofPlain srv ts with io := r.1, conns := ts.set i r.2 } := by
  obtain ⟨io₁, c₁, rc, t₁, hr, hr', h₁⟩ := (handleWsRecv_plain o env srv.io hconn data).parts
  have hready : (t₁.state = .wsRecv ∧ (!t₁.recvPending) = true)
      ↔ (c₁.state = .wsRecv ∧ (!c₁.recvPending) = true) := by
    rw [h₁.state, ConnState.ofPlain_eq_wsRecv, h₁.recvPending]
  unfold recvWs
  rw [hr, hr']
  simp only [hready]
  by_cases hrc : rc ≠ 0
  · rw [if_pos hrc, if_pos hrc]
    exact put_plain h (closeConn_plain io₁ h₁)
  rw [if_neg hrc, if_neg hrc]
  by_cases hagain : c₁.state = .wsRecv ∧ (!c₁.recvPending) = true
  · rw [if_pos hagain, if_pos hagain]
    exact put_plain h (closeOnError_plain (submitRecv_plain o io₁ h₁))
  · rw [if_neg hagain, if_neg hagain]
    exact put_plain h ⟨rfl, h₁⟩

/-- A completion for a slot that has nothing to do with it. -/
theorem unchanged_plain (h : Aligned 0 srv.conns ts) {i : ℕ} {t : Conn η ω} (ht : ts[i]? = some t) :
    AtPlain srv { Server.ofPlain srv ts with io := .ofPlain srv.io, conns := ts.set i t } :=
  ⟨ts, h, by rw [put_same ht]; rfl⟩

/-- A RECV completion. -/
theorem onRecv_plain (o : LoopOpts η) (env : LoopEnv η P υ ω) (h : Aligned 0 srv.conns ts)
    (slot : ℕ) (res : Except ℤ Bytes) :
    AtPlain (Edgehost.atSlot srv slot fun c => Edgehost.onRecv o env.toLoopEnv srv c res)
      (atSlot o env (.ofPlain srv ts) slot fun io c => onRecv o env io c res) := by
  unfold atSlot Edgehost.atSlot
  rw [show (Server.ofPlain srv ts).conns = ts from rfl]
  rcases h.getElem? slot with ⟨hc, ht⟩ | ⟨c, t, hc, ht, hconn⟩
  · rw [hc, ht]
    exact ⟨ts, h, rfl⟩
  rw [Nat.zero_add] at hconn
  rw [hc, ht]
  obtain ⟨-, -, mem, log, rfl, -⟩ := id hconn
  obtain ⟨fd, state, i, recvPending, sendPending, sendBuf, sendOff, http, ws, keepWs, born⟩ := c
  cases state with
  | free => exact unchanged_plain h ht
  | send => exact unchanged_plain h ht
  | wsSend => exact unchanged_plain h ht
  | recv =>
    cases res with
    | error e => exact put_plain h (closeConn_plain srv.io hconn.notReceived)
    | ok data =>
      exact answer_plain o env h (handleHttpBytes_plain o env srv.io hconn.received rfl data)
  | wsRecv =>
    cases res with
    | error e => exact put_plain h (closeConn_plain srv.io hconn.notReceived)
    | ok data =>
      cases data with
      | nil => exact put_plain h (closeConn_plain srv.io hconn.received)
      | cons b data => exact recvWs_plain o env h hconn.received (b :: data)

/-- A SEND completion. -/
theorem onSend_plain (o : LoopOpts η) (env : LoopEnv η P υ ω) (h : Aligned 0 srv.conns ts)
    (slot : ℕ) (res : Except ℤ ℕ) :
    AtPlain (Edgehost.atSlot srv slot fun c => Edgehost.onSend o env.toLoopEnv srv c res)
      (atSlot o env (.ofPlain srv ts) slot fun io c =>
        ((onSend o env io c res).1, (onSend o env io c res).2, false)) := by
  unfold atSlot Edgehost.atSlot
  rw [show (Server.ofPlain srv ts).conns = ts from rfl]
  rcases h.getElem? slot with ⟨hc, ht⟩ | ⟨c, t, hc, ht, hconn⟩
  · rw [hc, ht]
    exact ⟨ts, h, rfl⟩
  rw [Nat.zero_add] at hconn
  rw [hc, ht]
  dsimp only
  unfold onSend
  have hfree : t.state = .free ↔ c.state = .free := by rw [hconn.state, ConnState.ofPlain_eq_free]
  by_cases hstate : c.state = .free
  · rw [if_pos hstate, if_pos (hfree.mpr hstate)]
    exact unchanged_plain h ht
  rw [if_neg hstate, if_neg (hfree.not.mpr hstate)]
  unfold Edgehost.onSend
  cases res with
  | error e => exact put_plain h (closeConn_plain srv.io hconn.notSent)
  | ok n =>
    have hsent := hconn.sent n
    let io₁ := srv.io.count fun m => { m with bytesOut := m.bytesOut + UInt64.ofNat n }
    have hall : (({ t with sendPending := false } : Conn η ω).advance n).sendOff
          ≥ (({ t with sendPending := false } : Conn η ω).advance n).sendLen
        ↔ c.sendOff + n ≥ (c.sendBuf.getD []).length := by
      obtain ⟨-, -, mem, log, rfl, -⟩ := hconn
      rfl
    dsimp only
    by_cases hdone : c.sendOff + n ≥ (c.sendBuf.getD []).length
    · rw [if_pos hdone, if_pos (hall.mpr hdone)]
      exact put_plain h (closeOnError_plain (handleSendComplete_plain o env io₁ hsent))
    · rw [if_neg hdone, if_neg (hall.not.mpr hdone)]
      exact put_plain h (closeOnError_plain (submitSend_plain o env io₁ hsent))

/-! ## Accepting -/

/-- What `alloc_conn` leaves in a slot, complete or not. -/
theorem allocConn_plain (o : LoopOpts η) (env : LoopEnv η P υ ω) (i born : ℕ) :
    Matches i (Edgehost.allocConn o env.toLoopEnv i born).1 (allocConn o env i born).1 ∧
      (allocConn o env i born).2 = (Edgehost.allocConn o env.toLoopEnv i born).2 := by
  have hbare : Matches i
      { Edgehost.Conn.idle (η := η) (ω := ω) i with state := .recv, born := born }
      { Conn.idle i with state := .recv, born := born } :=
    ⟨rfl, by simp [Buffered, Edgehost.Conn.idle], [], _, rfl, by simp [Sends]⟩
  unfold allocConn Edgehost.allocConn
  split_ifs
  · exact ⟨hbare, rfl⟩
  · exact ⟨hbare, rfl⟩
  · exact ⟨⟨rfl, fun _ => rfl, [], _, rfl, by simp [Sends]⟩, rfl⟩

/-- The last step of `accept_one`. -/
theorem openedOr_plain {i : ℕ} {r : Edgehost.LoopIo P υ × Edgehost.Conn η ω × ℤ}
    {r' : LoopIo P υ × Conn η ω × ℤ} (h : SameResult i r r') :
    Mirrors i (Edgehost.closeOnError r).1 (Edgehost.closeOnError r).2 (openedOr r').1
      (openedOr r').2.1 := by
  unfold openedOr Edgehost.closeOnError
  rw [h.ret, h.mirrors.io]
  split_ifs
  · exact closeConn_plain r.1 h.mirrors.conn
  · exact ⟨rfl, h.mirrors.conn⟩

/-- A connection that is accepted without TLS waits for a request, or is closed. -/
theorem openConn_plain (o : LoopOpts η) (env : LoopEnv η P υ ω) (io : Edgehost.LoopIo P υ) {i : ℕ}
    {c : Edgehost.Conn η ω} {t : Conn η ω} (h : Matches i c t) (clientFd : ℕ) :
    let r := Edgehost.closeOnError (Edgehost.submitRecv o
      (io.count fun m => { m with accepts := m.accepts + 1, activeConns := m.activeConns + 1 })
      { c with fd := some clientFd })
    let r' := openConn o env false (.ofPlain io) t clientFd
    Mirrors i r.1 r.2 r'.1 r'.2.1 := by
  have hfd : Matches i { c with fd := some clientFd } { t with fd := some clientFd } := by
    obtain ⟨hslot, hbuf, mem, log, rfl, hsends⟩ := h
    exact ⟨hslot, hbuf, mem, log, rfl, hsends⟩
  exact openedOr_plain (submitRecv_plain o _ hfd)

/-- A client is accepted, or refused. -/
theorem acceptOne_plain (o : LoopOpts η) (env : LoopEnv η P υ ω) (h : Aligned 0 srv.conns ts)
    (clientFd : ℕ) : AtPlain (Edgehost.acceptOne o env.toLoopEnv srv clientFd)
      (acceptOne o env false (.ofPlain srv ts) clientFd).1 := by
  unfold acceptOne Edgehost.acceptOne
  by_cases hblock : (!env.nonblock) = true
  · rw [if_pos hblock, if_pos hblock]
    exact ⟨ts, h, rfl⟩
  rw [if_neg hblock, if_neg hblock, show (Server.ofPlain srv ts).conns = ts from rfl, h.freeSlot_eq]
  cases Edgehost.freeSlot srv.conns with
  | none => exact ⟨ts, h, rfl⟩
  | some i =>
    obtain ⟨hnew, hcomplete⟩ := allocConn_plain o env i srv.births
    have hset := fun {c : Edgehost.Conn η ω} {t : Conn η ω} (hc : Matches i c t) =>
      h.set (n := i) (by rwa [Nat.zero_add])
    dsimp only
    rw [show (Server.ofPlain srv ts).births = srv.births from rfl, hcomplete]
    split_ifs
    · exact ⟨_, hset hnew, rfl⟩
    · obtain ⟨hio, hopen⟩ := openConn_plain o env srv.io hnew clientFd
      refine ⟨_, hset hopen, ?_⟩
      rw [show (Server.ofPlain srv ts).io = .ofPlain srv.io from rfl, hio]
      rfl

/-- The next accept. -/
theorem submitAccept_plain (o : LoopOpts η) (h : Aligned 0 srv.conns ts) :
    AtPlain (Edgehost.submitAccept o srv) (submitAccept o (.ofPlain srv ts)) := by
  unfold submitAccept Edgehost.submitAccept
  rw [show (⟨.accept, 0, 0⟩ : Sqe) = .ofPlain ⟨.accept, 0, 0⟩ from rfl,
    show (Server.ofPlain srv ts).io = .ofPlain srv.io from rfl, getSqe_ofPlain]
  have hcount : (o.maxAccepts > 0 ∧ (Server.ofPlain srv ts).acceptsDone ≥ o.maxAccepts)
      ↔ (o.maxAccepts > 0 ∧ srv.acceptsDone ≥ o.maxAccepts) := Iff.rfl
  by_cases hpending : srv.acceptPending = true
  · rw [if_pos hpending, if_pos (show (Server.ofPlain srv ts).acceptPending = true from hpending)]
    exact ⟨ts, h, rfl⟩
  rw [if_neg hpending, if_neg (show ¬(Server.ofPlain srv ts).acceptPending = true from hpending)]
  by_cases hdone : o.maxAccepts > 0 ∧ srv.acceptsDone ≥ o.maxAccepts
  · rw [if_pos hdone, if_pos (hcount.mpr hdone)]
    exact ⟨ts, h, rfl⟩
  rw [if_neg hdone, if_neg (hcount.not.mpr hdone)]
  cases Edgehost.getSqe o srv.io ⟨.accept, 0, 0⟩ with
  | none => exact ⟨ts, h, rfl⟩
  | some io => exact ⟨ts, h, rfl⟩

/-- An ACCEPT completion. -/
theorem onAccept_plain (o : LoopOpts η) (env : LoopEnv η P υ ω) (h : Aligned 0 srv.conns ts)
    (res : Except ℤ ℕ) : AtPlain (Edgehost.onAccept o env.toLoopEnv srv res)
      (onAccept o env false (.ofPlain srv ts) res) := by
  let ready : Edgehost.Server η P υ ω := { srv with acceptPending := false }
  cases res with
  | error e => exact submitAccept_plain o (show Aligned 0 ready.conns ts from h)
  | ok clientFd =>
    obtain ⟨ts', hslots, hfull⟩ := acceptOne_plain o env (show Aligned 0 ready.conns ts from h) clientFd
    unfold onAccept Edgehost.onAccept
    dsimp only
    rw [show { Server.ofPlain srv ts with acceptPending := false } = Server.ofPlain ready ts
      from rfl, hfull]
    exact submitAccept_plain o hslots

/-! ## Turns and runs -/

/-- Nothing completed: the fan-out, and a scrape if one is due. -/
theorem onTimeout_plain (o : LoopOpts η) (env : LoopEnv η P υ ω) (again : ℕ → SslAnswers)
    (h : Aligned 0 srv.conns ts) :
    AtPlain (Edgehost.onTimeout o env.toLoopEnv srv) (onTimeout o env again (.ofPlain srv ts)) := by
  obtain ⟨ts', hslots, hfull⟩ := flushAll_plain o env h
  unfold onTimeout Edgehost.onTimeout
  rw [hfull]
  generalize Edgehost.flushAll o env.toLoopEnv srv = srv' at hslots ⊢
  dsimp only
  rw [show (Server.ofPlain srv' ts').io.world = srv'.io.world from rfl]
  cases srv'.io.world.store with
  | none => exact ⟨ts', hslots, rfl⟩
  | some st =>
    dsimp only
    by_cases hoff : (!o.pqCfg.enabled) = true
    · rw [if_pos hoff, if_pos hoff]
      exact ⟨ts', hslots, rfl⟩
    rw [if_neg hoff, if_neg hoff]
    by_cases hdue : srv'.tick + 200 - srv'.lastScrapeMs ≥ o.pqCfg.scrapeIntervalMs.toUInt64
    · rw [if_pos hdue, if_pos (show (Server.ofPlain srv' ts').tick + 200
        - (Server.ofPlain srv' ts').lastScrapeMs ≥ o.pqCfg.scrapeIntervalMs.toUInt64 from hdue)]
      let r := edgePqSidecarScrapeOnce env.scrape o.pqCfg st srv'.io.world.hub
      let scraped : Edgehost.Server η P υ ω :=
        { srv' with
          tick := srv'.tick + 200
          lastScrapeMs := srv'.tick + 200
          io := { srv'.io with world := { srv'.io.world with store := some r.1, hub := r.2.1 } } }
      exact flushAll_plain o { env with ssl := again }
        (show Aligned 0 scraped.conns ts' from hslots)
    · rw [if_neg hdue, if_neg (show ¬(Server.ofPlain srv' ts').tick + 200
        - (Server.ofPlain srv' ts').lastScrapeMs ≥ o.pqCfg.scrapeIntervalMs.toUInt64 from hdue)]
      exact ⟨ts', hslots, rfl⟩

/-- Both loops stop at the same time. -/
theorem shouldStop_plain (o : LoopOpts η) (h : Aligned 0 srv.conns ts) :
    shouldStop o (.ofPlain srv ts) = Edgehost.shouldStop o srv := by
  unfold shouldStop Edgehost.shouldStop
  rw [← h.all_free]
  rfl

/-- The kernel takes the same entries. -/
theorem ioUringSubmit_plain (h : Aligned 0 srv.conns ts) (taken : ℕ) :
    AtPlain (Edgehost.ioUringSubmit srv taken) (ioUringSubmit (.ofPlain srv ts) taken) := by
  refine ⟨ts, h, ?_⟩
  unfold ioUringSubmit Edgehost.ioUringSubmit
  simp only [Server.ofPlain, LoopIo.ofPlain, List.map_append, List.map_take, List.map_drop]

/-- The completion of an operation that both loops know. -/
theorem completeOp_plain (o : LoopOpts η) (h : Aligned 0 srv.conns ts) (sqe : Edgehost.Sqe)
    (taken : ℕ) {f : Edgehost.Server η P υ ω → Edgehost.Server η P υ ω}
    {f' : Server η P υ ω → Server η P υ ω}
    (hf : ∀ srv' : Edgehost.Server η P υ ω, Aligned 0 srv'.conns ts →
      AtPlain (f srv') (f' (.ofPlain srv' ts))) :
    AtPlain (Edgehost.completeOp o srv sqe taken f)
      (completeOp o (.ofPlain srv ts) (.ofPlain sqe) taken f') := by
  have hmem : Sqe.ofPlain sqe ∉ (Server.ofPlain srv ts).inFlight ↔ sqe ∉ srv.inFlight :=
    (List.mem_map_of_injective Sqe.ofPlain_injective).not
  unfold completeOp Edgehost.completeOp
  rw [shouldStop_plain o h]
  by_cases hno : Edgehost.shouldStop o srv = true ∨ sqe ∉ srv.inFlight
  · rw [if_pos hno, if_pos (by rwa [hmem])]
    exact ⟨ts, h, rfl⟩
  rw [if_neg hno, if_neg (by rwa [hmem])]
  obtain ⟨ts', hslots, hfull⟩ := hf { srv with inFlight := srv.inFlight.erase sqe } h
  have herase : ({ Server.ofPlain srv ts with
        inFlight := (Server.ofPlain srv ts).inFlight.erase (.ofPlain sqe) } : Server η P υ ω)
      = .ofPlain { srv with inFlight := srv.inFlight.erase sqe } ts := by
    simp only [Server.ofPlain, List.map_erase Sqe.ofPlain_injective]
  rw [herase, hfull]
  exact ioUringSubmit_plain hslots taken

/-- What the wait for a completion brings to the plain loop: never a poll. -/
def LoopEvent.plain? : LoopEvent η P υ ω → Option (Edgehost.LoopEvent η P υ ω)
  | .accepted env res taken => some (.accepted env.toLoopEnv res taken)
  | .received env slot owner res taken => some (.received env.toLoopEnv slot owner res taken)
  | .sent env slot owner res taken => some (.sent env.toLoopEnv slot owner res taken)
  | .polled .. => none
  | .timeout env _ taken => some (.timeout env.toLoopEnv taken)

/-- **A turn.** The full loop without TLS does what the plain loop does; a poll cannot complete. -/
theorem loopStep_plain (o : LoopOpts η) {full : Server η P υ ω} (h : AtPlain srv full)
    (ev : LoopEvent η P υ ω) :
    AtPlain (ev.plain?.elim srv (Edgehost.loopStep o srv)) (loopStep o false full ev) := by
  obtain ⟨ts, h, rfl⟩ := h
  cases ev with
  | accepted env res taken =>
    dsimp only [LoopEvent.plain?, Option.elim, Edgehost.loopStep, loopStep]
    exact completeOp_plain o h ⟨.accept, 0, 0⟩ taken fun srv' h' =>
      onAccept_plain o env h' res
  | received env slot owner res taken =>
    dsimp only [LoopEvent.plain?, Option.elim, Edgehost.loopStep, loopStep]
    exact completeOp_plain o h ⟨.recv, slot, owner⟩ taken fun srv' h' =>
      onRecv_plain o env h' slot res
  | sent env slot owner res taken =>
    dsimp only [LoopEvent.plain?, Option.elim, Edgehost.loopStep, loopStep]
    exact completeOp_plain o h ⟨.send, slot, owner⟩ taken fun srv' h' =>
      onSend_plain o env h' slot res
  | polled env slot owner wantWrite ok taken =>
    have hno : (⟨.poll wantWrite, slot, owner⟩ : Sqe) ∉ (Server.ofPlain srv ts).inFlight := by
      intro hmem
      obtain ⟨⟨op, slot', owner'⟩, -, heq⟩ := List.mem_map.mp hmem
      have hop : LoopOp.ofPlain op = .poll wantWrite := congrArg Sqe.op heq
      cases op <;> exact nomatch hop
    refine ⟨ts, h, ?_⟩
    rw [loopStep, completeOp, if_pos (.inr hno)]
    rfl
  | timeout env again taken =>
    rw [loopStep, shouldStop_plain o h]
    dsimp only [LoopEvent.plain?, Option.elim, Edgehost.loopStep]
    split_ifs
    · exact ⟨ts, h, rfl⟩
    · obtain ⟨ts', hslots, hfull⟩ := onTimeout_plain o env again h
      rw [hfull]
      exact ioUringSubmit_plain hslots taken

end Turns

/-- At the start the two loops are in the same place. -/
theorem loopStart_plain (maxConns : Fin (2 ^ 31)) (world : ServeWorld P υ) (metrics : EdgeMetrics) :
    AtPlain (η := η) (ω := ω)
      (Edgehost.loopStart maxConns { world with metrics := some { metrics with activeConns := 0 } })
      (loopStart maxConns world metrics) := by
  refine ⟨_, ?_, rfl⟩
  have hidle := aligned_idle (η := η) (ω := ω) maxConns 0
  rwa [← List.range_eq_range'] at hidle

/-- **The two loops are one.** Whatever happens, the loop of a server without a TLS context goes
through the states of the plain loop: the same process, the same connections in the same slots, the
same operations. -/
theorem loop_plain (o : LoopOpts η) (maxConns : Fin (2 ^ 31)) (world : ServeWorld P υ)
    (metrics : EdgeMetrics) (evs : List (LoopEvent η P υ ω)) :
    let counted := { world with metrics := some { metrics with activeConns := 0 } }
    AtPlain
      (runFrom (Edgehost.loopStep o) (Edgehost.loopStart maxConns counted)
        (evs.filterMap LoopEvent.plain?))
      (runFrom (loopStep o false) (loopStart maxConns world metrics) evs) :=
  runFrom_filterMap (R := AtPlain) (fun _ _ ev h => loopStep_plain o h ev)
    (loopStart_plain maxConns world metrics) evs

/-- A process that has started without TLS: its runs in the full loop are those of the plain loop. -/
theorem started_plain {env : RingEnv} {st : Started} {h1 : η} {o : LoopOpts η}
    {srv : Edgehost.Server η BundledPlugin OpenaiData ω}
    (hstart : edgeIouringStart env st h1 = .plain o srv)
    (evs : List (LoopEvent η BundledPlugin OpenaiData ω)) :
    AtPlain (runFrom (Edgehost.loopStep o) srv (evs.filterMap LoopEvent.plain?))
      (runFrom (loopStep o false) (loopStart 64 (ringWorld env st) (edgeMetricsInit env.clock))
        evs) := by
  obtain ⟨-, rfl⟩ := edgeIouringStart_plain hstart
  exact loop_plain o 64 (ringWorld env st) (edgeMetricsInit env.clock) evs

end Edgehost.Tls
