import Edgehost.Host.TlsServer

/-!
# What TLS has decrypted (`handle_tls_poll`)

A connection that waits for its client polls the socket, and a poll says nothing of the bytes that
OpenSSL took off the socket before. A poll completion reads once, and at most `RECV_BUF` bytes, of a
record that may be longer.

* `ReadUp` says that a connection that waits for its client has read all that was decrypted.
* `TakesWhole` says of a poll completion that it reads a whole record, or needs no more of it.
* `always_readUp` is the result: in a run of such completions every connection is always read up.
-/

namespace Edgehost.Tls

variable {η P υ ω : Type*}

/-! ## Statement -/

/-- A connection that waits for its client by a POLLIN has read all that was decrypted. -/
def ReadUp (c : Conn η ω) : Prop :=
  c.state = .recv ∨ c.state = .wsRecv → c.pollPending = true → c.log.armed = false →
    ∀ ssl ∈ c.ssl, ssl.pending = []

/-- These bytes are the last that the connection reads: the request is answered, and not by an
upgrade, or the parser or the WebSocket fails. -/
def EndsReading (o : LoopOpts η) (env : LoopEnv η P υ ω) (io : LoopIo P υ) (c : Conn η ω)
    (data : Bytes) : Prop :=
  (c.state = .recv ∧ ∀ http ∈ c.http,
    let served := edgeHttp1ServeFeed env.serve http io.world data o.sendCap
    served.ret < 0 ∨ 0 < served.ret ∧ served.serve.wsUpgrade = false) ∨
  (c.state = .wsRecv ∧ ∀ ws ∈ c.ws,
    (wsEvents env.toLoopEnv (env.ws.feedInput ws data).1 (env.ws.feedInput ws data).2).2 ≠ 0)

/-- A record that comes in fits into `recv_buf`, or ends with its first part what the connection
reads. -/
def TakesWhole (o : LoopOpts η) (c : Conn η ω) : ConnEvent η P υ ω → Prop
  | .poll env io true => c.state = .recv ∨ c.state = .wsRecv →
      ∀ b bs, (env.ssl c.slot).record = .record b bs →
        (b :: bs).length ≤ RECV_BUF ∨ EndsReading o env io c ((b :: bs).take RECV_BUF)
  | _ => True

/-- There is nothing unread, or it will not be asked for: the connection is free, or is to be closed
after its response. -/
def Unbuffered (c : Conn η ω) : Prop :=
  c.state = .free ∨ HttpOnly c ∨ ∀ ssl ∈ c.ssl, ssl.pending = []

theorem Unbuffered.readUp {c : Conn η ω} (h : Unbuffered c) : ReadUp c := by
  intro hst _ _
  rcases h with hfree | ⟨hsend, -⟩ | hread
  · rcases hst with hst | hst <;> exact absurd (hst.symm.trans hfree) (by decide)
  · rcases hst with hst | hst <;> exact absurd (hst.symm.trans hsend) (by decide)
  · exact hread

/-! ## Steps -/

theorem Agrees.unbuffered {c c₁ : Conn η ω} (h : Agrees c c₁) (hc : Unbuffered c) :
    Unbuffered c₁ := by
  rwa [Unbuffered, HttpOnly, h.state, h.keepWs, h.ssl]

theorem Effect.unbuffered {io io' : LoopIo P υ} {c c' : Conn η ω} (h : Effect io c io' c')
    (hc : Unbuffered c) : Unbuffered c' := by
  by_cases hfree : c.state = .free
  · rw [(h.free hfree).1]
    exact hc
  rcases h.live hfree with hlive | hclosed
  · rcases hc with hc | hc | hc
    · exact absurd hc hfree
    · exact .inr (.inl (hlive.http hc))
    · exact .inr (.inr (by rwa [hlive.ssl]))
  · exact .inl hclosed.free

/-- A handler that has read all there was. -/
theorem Effect.unbuffered_read {io io' : LoopIo P υ} {c c' : Conn η ω} {ssl : Ssl}
    (h : Effect io { c with ssl := some ssl } io' c') (hread : ssl.pending = []) :
    Unbuffered c' := by
  refine h.unbuffered (.inr (.inr fun ssl' hssl' => ?_))
  rwa [← Option.some.inj hssl']

theorem closeOnError_unbuffered {r : LoopIo P υ × Conn η ω × ℤ}
    (h : r.2.2 ≠ 0 ∨ Unbuffered r.2.1) : Unbuffered (closeOnError r).2 := by
  unfold closeOnError
  split_ifs with hrc
  · exact .inl (closeConn_free r.1 r.2.1)
  · exact h.resolve_left hrc

/-- A read leaves nothing behind, or takes the first part of a longer record. -/
theorem edgeTlsRead_cases {ssl : Ssl} (hssl : ssl.pending = []) (len : ℕ) (answer : RecordAnswer) :
    (edgeTlsRead ssl len answer).1.pending = [] ∨
      ∃ b bs, answer = .record b bs ∧ len < (b :: bs).length ∧
        (edgeTlsRead ssl len answer).2 = .data ((b :: bs).take len) := by
  unfold edgeTlsRead
  rw [if_neg (not_not.mpr hssl)]
  cases answer with
  | record b bs =>
    by_cases hlen : (b :: bs).length ≤ len
    · exact .inl (List.drop_eq_nil_of_le hlen)
    · exact .inr ⟨b, bs, rfl, not_le.mp hlen, rfl⟩
  | want write => exact .inl hssl
  | eof => exact .inl hssl
  | failed => exact .inl hssl

/-- Bytes that end what the connection reads close it, or have it send its only response. -/
theorem handleHttpBytes_ends (o : LoopOpts η) (env : LoopEnv η P υ ω) (io : LoopIo P υ)
    {c : Conn η ω} {data : Bytes} (hdata : data ≠ [])
    (hends : ∀ http ∈ c.http,
      let served := edgeHttp1ServeFeed env.serve http io.world data o.sendCap
      served.ret < 0 ∨ 0 < served.ret ∧ served.serve.wsUpgrade = false) :
    (handleHttpBytes o env io c data).2.2.1 ≠ 0 ∨
      Unbuffered (handleHttpBytes o env io c data).2.1 := by
  have hfailed : (-1 : ℤ) ≠ 0 := by decide
  unfold handleHttpBytes
  rw [if_neg hdata]
  cases hhttp : c.http with
  | none => exact .inl hfailed
  | some http =>
    have hserved := hends http hhttp
    simp only at hserved ⊢
    generalize edgeHttp1ServeFeed env.serve http io.world data o.sendCap = served at hserved
    rcases hserved with hneg | ⟨hpos, hupgrade⟩
    · rw [if_pos hneg]
      exact .inl hfailed
    · rw [if_neg (by omega), if_neg (by omega), hupgrade]
      -- The response is no upgrade, and the connection is closed after it.
      have honly : ∀ c₁ : Conn η ω, HttpOnly c₁ → ∀ io₁,
          Unbuffered (submitSend o env io₁ c₁).2.1 := fun c₁ h io₁ =>
        (submitSend_effect o env io₁ c₁ (by rw [h.1]; decide)).unbuffered (.inr (.inl h))
      split_ifs
      · exact .inl hfailed
      · exact .inr (honly _ ⟨rfl, rfl⟩ _)

theorem pollWsData_ends (o : LoopOpts η) (env : LoopEnv η P υ ω) (io : LoopIo P υ) {c : Conn η ω}
    {data : Bytes} (hends : ∀ ws ∈ c.ws,
      (wsEvents env.toLoopEnv (env.ws.feedInput ws data).1 (env.ws.feedInput ws data).2).2 ≠ 0) :
    (pollWsData o env io c data).2.2 ≠ 0 := by
  have hfailed : (-1 : ℤ) ≠ 0 := by decide
  have hrecv : (handleWsRecv o env io c data).2.2 ≠ 0 := by
    unfold handleWsRecv
    cases hws : c.ws with
    | none => exact hfailed
    | some ws =>
      simp only
      rw [if_pos (hends ws hws)]
      exact hfailed
  unfold pollWsData
  simp only
  rw [if_pos hrecv]
  exact hfailed

section

variable (o : LoopOpts η) (env : LoopEnv η P υ ω) (io : LoopIo P υ) {c : Conn η ω} {ssl : Ssl}

/-- A poll completion while a request comes in. -/
theorem pollHttp_unbuffered (hst : c.state = .recv) (hssl : ssl.pending = [])
    (hwhole : ∀ b bs, (env.ssl c.slot).record = .record b bs →
      (b :: bs).length ≤ RECV_BUF ∨ EndsReading o env io c ((b :: bs).take RECV_BUF)) :
    (pollHttp o env io c ssl).2.2.1 ≠ 0 ∨ Unbuffered (pollHttp o env io c ssl).2.1 := by
  rcases edgeTlsRead_cases hssl RECV_BUF (env.ssl c.slot).record with
    hrest | ⟨b, bs, hrecord, hlong, hdata⟩
  · exact .inr ((pollHttp_effect o env io hst ssl).unbuffered_read hrest)
  · have hends := (hwhole b bs hrecord).resolve_left (not_le.mpr hlong)
    unfold pollHttp
    simp only [hdata]
    refine handleHttpBytes_ends o env io (by simp [RECV_BUF]) ?_
    rcases hends with ⟨-, hends⟩ | ⟨hws, -⟩
    · exact hends
    · exact absurd (hst.symm.trans hws) (by decide)

/-- A poll completion of a WebSocket connection that is not sending. -/
theorem pollWs_unbuffered (hst : c.state = .wsRecv) (hssl : ssl.pending = [])
    (hwhole : ∀ b bs, (env.ssl c.slot).record = .record b bs →
      (b :: bs).length ≤ RECV_BUF ∨ EndsReading o env io c ((b :: bs).take RECV_BUF)) :
    (pollWs o env io c ssl).2.2 ≠ 0 ∨ Unbuffered (pollWs o env io c ssl).2.1 := by
  rcases edgeTlsRead_cases hssl RECV_BUF (env.ssl c.slot).record with
    hrest | ⟨b, bs, hrecord, hlong, hdata⟩
  · exact .inr ((pollWs_effect o env io hst ssl).unbuffered_read hrest)
  · have hends := (hwhole b bs hrecord).resolve_left (not_le.mpr hlong)
    unfold pollWs
    simp only [hdata]
    refine .inl (pollWsData_ends o env io ?_)
    rcases hends with ⟨hrecv, -⟩ | ⟨-, hends⟩
    · exact absurd (hst.symm.trans hrecv) (by decide)
    · exact hends

theorem onPoll_unbuffered (hc : Unbuffered c) (ok : Bool)
    (hwhole : TakesWhole o c (.poll env io ok)) : Unbuffered (onPoll o env io c ok).2.1 := by
  unfold onPoll
  split_ifs with hfree hok
  · exact hc
  · exact .inl (closeConn_free io _)
  have hwhole' : c.state = .recv ∨ c.state = .wsRecv →
      ∀ b bs, (env.ssl c.slot).record = .record b bs →
        (b :: bs).length ≤ RECV_BUF ∨ EndsReading o env io c ((b :: bs).take RECV_BUF) := by
    rw [Bool.not_eq_true', Bool.not_eq_false] at hok
    rw [hok] at hwhole
    exact hwhole
  let c₁ : Conn η ω := { c with pollPending := false }
  have hc₁ : Unbuffered c₁ := hc
  simp only
  split
  case h_1 => exact hc₁
  case h_2 ssl hssl =>
    -- A connection that reads has not left anything of an earlier record.
    have hread : c.state = .recv ∨ c.state = .wsRecv → ssl.pending = [] := by
      intro hst
      rcases hc with hc | hc | hc
      · exact absurd hc hfree
      · rcases hst with hst | hst <;> exact absurd (hst.symm.trans hc.1) (by decide)
      · exact hc ssl hssl
    have hpoll : (handleTlsPoll o env io c₁ ssl).2.2.1 ≠ 0 ∨
        Unbuffered (handleTlsPoll o env io c₁ ssl).2.1 := by
      unfold handleTlsPoll
      split
      case h_1 => exact .inr hc₁
      case h_2 hst => exact .inr ((pollHandshake_effect o env io hst).unbuffered hc₁)
      case h_3 hst =>
        exact pollHttp_unbuffered o env io hst (hread (.inl hst)) (hwhole' (.inl hst))
      case h_4 hst => exact pollWs_unbuffered o env io hst (hread (.inr hst)) (hwhole' (.inr hst))
      case h_5 hst =>
        exact .inr ((tlsDriveWrite_effect o env _ io c₁ (by simp [hst])).unbuffered hc₁)
      case h_6 hst =>
        exact .inr ((tlsDriveWrite_effect o env _ io c₁ (by simp [hst])).unbuffered hc₁)
    exact closeOnError_unbuffered (r := (_, _, _)) hpoll

end

theorem connStep_unbuffered (o : LoopOpts η) (c : Conn η ω) (ev : ConnEvent η P υ ω)
    (hc : Unbuffered c) (hwhole : TakesWhole o c ev) : Unbuffered (connStep o c ev) := by
  cases ev with
  | recv env io res =>
    obtain ⟨c₁, hsame, heff⟩ := onRecv_effect o env io c res
    exact heff.unbuffered (hsame.unbuffered hc)
  | send env io res =>
    obtain ⟨c₁, hsame, heff⟩ := onSend_effect o env io c res
    exact heff.unbuffered (hsame.unbuffered hc)
  | poll env io ok => exact onPoll_unbuffered o env io hc ok hwhole
  | fanOut env io => exact (flushPending_effect o env io c).unbuffered hc

/-! ## Runs -/

/-- What the rest of the loop does to connections leaves nothing unread. -/
theorem unbuffered_upheld (o : LoopOpts η) (tls : Bool) :
    Upheld o tls P υ (Unbuffered : Conn η ω → Prop) where
  idle _ := .inl rfl
  opened env io slot born clientFd := by
    obtain ⟨io₁, c₁, -, -, hread, -, heff⟩ := openConn_effect o env tls io slot born clientFd
    exact heff.unbuffered (.inr (.inr hread))
  refused env slot born := by
    refine .inr (.inr ?_)
    unfold allocConn
    split_ifs <;> exact fun ssl hssl => absurd hssl (by simp [newConn, Conn.idle])
  fanOut env io c hc := (flushPending_effect o env io c).unbuffered hc

/-- **Nothing that was decrypted stays unread.** In every state of a run of the loop whose poll
completions each take a whole record, or need no more of it, every connection that waits for its
client is read up. -/
theorem always_readUp (o : LoopOpts η) (tls : Bool) (maxConns : Fin (2 ^ 31))
    (world : ServeWorld P υ) (metrics : EdgeMetrics) (evs : List (LoopEvent η P υ ω))
    (hwhole : EachStep (loopStep o tls) (Hands (TakesWhole o)) (loopStart maxConns world metrics)
      evs) :
    Always (loopStep o tls) (fun srv => ∀ c ∈ srv.conns, ReadUp c)
      (loopStart maxConns world metrics) evs :=
  (always_each (unbuffered_upheld o tls) (connStep_unbuffered o) maxConns world metrics hwhole).mono
    fun _ h c hc => (h c hc).readUp

theorem sslAnswers_record {record : Bytes} {writes : List WriteAnswer} {b : UInt8} {bs : Bytes}
    (h : (sslAnswers record writes).record = .record b bs) : b :: bs = record := by
  cases record with
  | nil => exact absurd h (by simp [sslAnswers])
  | cons b' bs' =>
    simp only [sslAnswers, RecordAnswer.record.injEq] at h
    rw [h.1, h.2]

/-- The process when the loop begins. -/
def streamStart : Server Unit Unit Unit Bytes :=
  loopStart 1 streamWorld (edgeMetricsInit (streamEnv [] []).serve.clock)

/-- A client joins over TLS, with its request in one record. -/
def joinEvs : List (LoopEvent Unit Unit Unit Bytes) :=
  [.accepted (streamEnv [] []) (.ok 5) 9, .polled (streamEnv handshake [.wrote 200]) 0 0 false true 9]

theorem always_readUp_join :
    EachStep (loopStep streamOpts true) (Hands (TakesWhole streamOpts)) streamStart joinEvs ∧
      Always (loopStep streamOpts true) (fun srv => ∀ c ∈ srv.conns, ReadUp c) streamStart
        joinEvs := by
  have hshort : handshake.length ≤ RECV_BUF := by decide +kernel
  have hwhole : EachStep (loopStep streamOpts true) (Hands (TakesWhole streamOpts)) streamStart
      joinEvs := by
    refine ⟨fun p hp => absurd hp (by simp [LoopEvent.toConn]), fun p hp c _ => ?_, trivial⟩
    rw [← Option.some.inj hp]
    exact fun _ b bs h => .inl (by rwa [sslAnswers_record h])
  exact ⟨hwhole, always_readUp streamOpts true 1 streamWorld _ joinEvs hwhole⟩

/-! ## A long request -/

/-- A parser that has the request line at once, and the headers when a packet ends with them. -/
def headerParser : Http1Parser Unit :=
  { handshakeParser with
    feedInput := fun _ data =>
      ([(if crlf2 <:+ data then .headersComplete
        else .requestLine (bytes "GET") (bytes "/api/v1/health"), ())], ()) }

/-- A request with a header of 4200 bytes, in one record. -/
def longRequest : Bytes :=
  bytes "GET /api/v1/health HTTP/1.1" ++ crlf ++ bytes "X-Request-Id: " ++ List.replicate 4200 97
    ++ crlf2

def longRequestEvs : List (LoopEvent Unit Unit Unit Bytes) :=
  [.accepted (streamEnv [] []) (.ok 5) 9,
    .polled { streamEnv longRequest [] with
      serve := { (streamEnv [] []).serve with parser := headerParser } } 0 0 false true 9]

/-- The connection waits for its client, with this number of bytes unread. -/
def WaitsWith (n : ℕ) (c : Conn η ω) : Prop :=
  c.state = .recv ∧ c.pollPending = true ∧ c.log.armed = false ∧
    c.ssl.map (fun ssl => ssl.pending.length) = some n

instance (n : ℕ) (c : Conn η ω) : Decidable (WaitsWith n c) := inferInstanceAs (Decidable (_ ∧ _))

theorem ReadUp.unread {c : Conn η ω} (h : ReadUp c) {n : ℕ} (hwaits : WaitsWith n c) : n = 0 := by
  obtain ⟨hst, hpoll, harmed, hlen⟩ := hwaits
  obtain ⟨ssl, hssl, rfl⟩ := Option.map_eq_some_iff.mp hlen
  rw [h (.inl hst) hpoll harmed ssl hssl, List.length_nil]

/-- The request has arrived, and the connection waits for the socket with 151 bytes of it unread. -/
theorem not_always_readUp_longRequest :
    longRequest.length ≤ 16384 ∧
      (∃ c ∈ (runFrom (loopStep streamOpts true) streamStart longRequestEvs).conns, WaitsWith 151 c) ∧
      ¬ Always (loopStep streamOpts true) (fun srv => ∀ c ∈ srv.conns, ReadUp c) streamStart
        longRequestEvs := by
  have hwaits : ∃ c ∈ (runFrom (loopStep streamOpts true) streamStart longRequestEvs).conns,
      WaitsWith 151 c := by decide +kernel
  refine ⟨by decide +kernel, hwaits, fun h => ?_⟩
  obtain ⟨c, hc, hunread⟩ := hwaits
  exact absurd ((h.last c hc).unread hunread) (by decide)

end Edgehost.Tls
