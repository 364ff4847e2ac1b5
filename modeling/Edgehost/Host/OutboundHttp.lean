import Edgehost.Common.CString
import Edgehost.Host.PluginHost

/-!
# The outbound HTTP client

`outbound_http.c`: one HTTP/1.1 request to an upstream server, run to completion, and
`edge_plugin_host_finish_pending_sync`, which runs the request of a pending plugin and hands its
result to `on_http_complete`. What the network does (whether a connection comes about, what the
reads return) is a parameter of the model.

* `readAll_eq`                — a read loop yields the first bytes of the stream, or fails.
* `parseStatusAndBody_append` — the body is what stands behind the header block.
* `completeOrError_iff`       — a body is passed on whole exactly when it fits both buffers and ends
  where its length says.
-/

namespace Edgehost

/-! ## Texts -/

def crlf : Bytes := [13, 10]

/-- The empty line behind a header block. -/
def crlf2 : Bytes := [13, 10, 13, 10]

/-- `strrchr`: what stands before and behind the last `c`. -/
def splitLast (s : Bytes) (c : UInt8) : Option (Bytes × Bytes) :=
  if c ∈ s then
    let tail := (s.reverse.takeWhile (· ≠ c)).reverse
    some (s.take (s.length - tail.length - 1), tail)
  else none

/-! ## The request -/

/-- `parsed_url_t`. -/
structure ParsedUrl where
  https : Bool
  host : Bytes
  path : Bytes
  port : ℕ
  deriving DecidableEq

/-- The authority of a URL: without the user, and with the port split off. -/
def parseAuthority (host : Bytes) (port : ℕ) : Bytes × ℕ :=
  let host := match strchr host (charByte '@') with
    | some rest => rest.drop 1
    | none => host
  match splitLast host (charByte ':') with
  | none => (host, port)
  | some (name, digits) =>
    let p := (strtoll digits).1
    if charByte ']' ∉ host ∧ p > 0 ∧ p ≤ 65535 then (name, p.toNat) else (host, port)

/-- `parse_url`. -/
def parseUrl (url : Option Bytes) : Option ParsedUrl :=
  match url with
  | none => none
  | some url =>
    let scheme : Option (Bool × ℕ × Bytes) :=
      if (bytes "https://").isPrefixOf url then some (true, 443, url.drop 8)
      else if (bytes "http://").isPrefixOf url then some (false, 80, url.drop 7)
      else none
    match scheme with
    | none => none
    | some (https, port, p) =>
      let path := (strchr p (charByte '/')).getD (bytes "/")
      let host := p.takeWhile (· ≠ charByte '/')
      if host = [] ∨ host.length ≥ 256 then none
      else
        let (host, port) := parseAuthority host port
        if host = [] then none else some { https, host, path := snprintf 1024 path, port }

/-- One header line of a request; a header without a name is skipped. -/
def headerLine : Option Bytes × Option Bytes → Bytes
  | (none, _) => []
  | (some name, value) => name ++ bytes ": " ++ value.getD [] ++ crlf

/-- The host name that a request is written with: the one that was handed over, or else that of the
URL. -/
def writtenHost (u : ParsedUrl) (hostHdr : Bytes) : Bytes := if hostHdr ≠ [] then hostHdr else u.host

/-- The text of a request. -/
def requestText (req : EdgeHttpClientReq) (u : ParsedUrl) (hostHdr : Bytes) : Bytes :=
  let body := if req.bodyLen > 0 then (req.body.map (·.take req.bodyLen)).getD [] else []
  let len := if req.body.isSome ∧ req.bodyLen > 0 then req.bodyLen else 0
  req.method.getD (bytes "GET") ++ [32] ++ u.path ++ bytes " HTTP/1.1" ++ crlf
    ++ bytes "Host: " ++ writtenHost u hostHdr ++ crlf ++ bytes "Connection: close" ++ crlf
    ++ ((req.hdrNames.zip req.hdrValues).take req.nHeaders).flatMap headerLine
    ++ bytes "Content-Length: " ++ decimal len ++ crlf2 ++ body

/-- `build_request`: every part must fit, so the whole text must. -/
def buildRequest (req : EdgeHttpClientReq) (u : ParsedUrl) (hostHdr : Bytes) (outCap : ℕ) :
    Option Bytes :=
  let text := requestText req u hostHdr
  if text.length < outCap then some text else none

/-! ## The network -/

/-- What a read returns before the stream ends: data, an interrupt, a wait (with whether the
descriptor became ready in time), or an error. -/
inductive ReadEvent where
  | data (bs : Bytes)
  | intr
  | idle (ready : Bool)
  | err
  deriving DecidableEq

/-- What the system does for one outbound request. `tlsOpen` says whether the descriptor, the context
and the `SSL` for a host name could be set up, `tlsHandshake` whether the handshake then succeeded. -/
structure Network where
  allocRequest : Bool
  allocRaw : Bool
  connectAddr : Bytes → ℕ → Bool
  connectHost : Bytes → ℕ → Bool
  tlsOpen : Bytes → Bool
  tlsHandshake : Bytes → Bool
  write : Bytes → Bool
  reads : Bytes → List ReadEvent

/-- `tcp_connect_host`. -/
def tcpConnectHost (net : Network) (host : Bytes) (port : ℕ) (addrOverride : Option Bytes)
    (allowDns : Bool) : Bool :=
  match addrOverride with
  | some (c :: cs) => net.connectAddr (c :: cs) port
  | _ => allowDns && net.connectHost host port

/-- `io_read_all_fd`. -/
def ioReadAllFd (cap : ℕ) : List ReadEvent → Bytes → Option Bytes
  | [], acc => some acc
  | e :: es, acc =>
    if acc.length ≥ cap then some acc
    else
      match e with
      | .data [] => some acc
      | .data bs => ioReadAllFd cap es (acc ++ bs.take (cap - acc.length))
      | .intr => ioReadAllFd cap es acc
      | .idle _ => ioReadAllFd cap es acc
      | .err => none

/-- `edge_tls_read_all_poll`. -/
def edgeTlsReadAllPoll (cap : ℕ) : List ReadEvent → Bytes → Option Bytes
  | [], acc => some acc
  | e :: es, acc =>
    if acc.length ≥ cap then some acc
    else
      match e with
      | .data [] => some acc
      | .data bs => edgeTlsReadAllPoll cap es (acc ++ bs.take (cap - acc.length))
      | .intr => edgeTlsReadAllPoll cap es acc
      | .idle true => edgeTlsReadAllPoll cap es acc
      -- With some data at hand a wait that runs out counts as the end of the stream.
      | .idle false => if acc = [] then none else some acc
      | .err => none

/-- Read all of a stream into a buffer of `cap` bytes. -/
def readAll (https : Bool) (cap : ℕ) (es : List ReadEvent) : Option Bytes :=
  if https then edgeTlsReadAllPoll cap es [] else ioReadAllFd cap es []

/-! ## The response -/

/-- `parse_status_and_body`. -/
def parseStatusAndBody (raw : Bytes) : Option (ℤ × Bytes) :=
  if raw.length < 12 then none
  else if !(bytes "HTTP/1.").isPrefixOf raw then none
  else
    match strchr (cstr raw) 32 with
    | none => none
    | some p =>
      let (st, rest) := strtoll (p.drop 1)
      if rest = p.drop 1 ∨ st < 100 ∨ st > 599 then none
      else (strstr raw crlf2).map fun end_ => (st, end_.drop 4)

def EIO : ℤ := 5
def ENOMEM : ℤ := 12
def EINVAL : ℤ := 22
def EPROTO : ℤ := 71
def EMSGSIZE : ℤ := 90
def ECONNREFUSED : ℤ := 111

/-- `edge_outbound_opts_t`, less the timeout. -/
structure EdgeOutboundOpts where
  allowBlockingDns : Bool
  maxResponseBody : ℕ

/-- `edge_outbound_opts_defaults`. -/
def edgeOutboundOptsDefaults : EdgeOutboundOpts where
  allowBlockingDns := false
  maxResponseBody := 4 * 1024 * 1024

/-- The limit on a response body. -/
def EdgeOutboundOpts.maxBody (opts : EdgeOutboundOpts) : ℕ :=
  if opts.maxResponseBody ≠ 0 then opts.maxResponseBody else 4 * 1024 * 1024

/-- The size of the buffer for a whole response. -/
def EdgeOutboundOpts.rawCap (opts : EdgeOutboundOpts) : ℕ :=
  if opts.maxBody + 8192 < 16384 then 16384 else opts.maxBody + 8192

/-- The result of a request that failed. -/
def EdgeHttpClientResult.failed (err : ℤ) : EdgeHttpClientResult where
  outboundId := 0
  userTag := 0
  transportErr := err
  status := 0
  headers := []
  body := []

/-- The host name of a request: its own, or that of its URL. -/
def hostHeader (req : EdgeHttpClientReq) (u : ParsedUrl) : Bytes :=
  match req.host with
  | some (c :: cs) => c :: cs
  | _ => u.host

/-- `edge_outbound_http_execute` up to the request: what the reads then return, or an error with the
return value. -/
def outboundSend (net : Network) (req : EdgeHttpClientReq) (opts : EdgeOutboundOpts)
    (bodyCap : ℕ) : Except (ℤ × ℤ) (Bool × List ReadEvent) :=
  if bodyCap < 64 then .error (ENOMEM, 0)
  else
    match parseUrl req.url with
    | none => .error (EINVAL, 0)
    | some u =>
      if !net.allocRequest then .error (ENOMEM, 0)
      else
        match buildRequest req u (hostHeader req u) (4096 + req.bodyLen + 256) with
        | none => .error (EMSGSIZE, 0)
        | some text =>
          if !tcpConnectHost net u.host u.port req.addrOverride opts.allowBlockingDns then
            .error (ECONNREFUSED, 0)
          else if !net.allocRaw then .error (ENOMEM, 0)
          -- From here on a failure also shows in the return value.
          else if u.https ∧ !net.tlsOpen (hostHeader req u) then .error ( EIO, -1)
          else if u.https ∧ !net.tlsHandshake (hostHeader req u) then .error (ECONNREFUSED, -1)
          else if !net.write text then .error ( EIO, -1)
          else .ok (u.https, net.reads text)

/-- `edge_outbound_http_execute` with a body buffer of `bodyCap` bytes: the result, and the return
value. -/
def edgeOutboundHttpExecute (net : Network) (req : EdgeHttpClientReq) (opts : EdgeOutboundOpts)
    (bodyCap : ℕ) : EdgeHttpClientResult × ℤ :=
  match outboundSend net req opts bodyCap with
  | .error (err, rc) => (.failed err, rc)
  | .ok (https, es) =>
    match readAll https opts.rawCap es with
    | none => (.failed EIO, -1)
    | some raw =>
      match parseStatusAndBody raw with
      | none => (.failed EPROTO, -1)
      | some (status, body) =>
        ({ EdgeHttpClientResult.failed 0 with status, body := body.take bodyCap }, 0)

/-! ## A pending plugin -/

section Pending

variable {P υ : Type*}

/-- The options of the request of a pending plugin. -/
def pendingOpts (allowBlockingDns : Bool) (maxUpstreamBody : ℕ) : EdgeOutboundOpts where
  allowBlockingDns
  maxResponseBody :=
    if maxUpstreamBody ≠ 0 then maxUpstreamBody else edgeOutboundOptsDefaults.maxResponseBody

/-- The size of the buffer for its response body. -/
def pendingCap (maxUpstreamBody : ℕ) : ℕ :=
  if (pendingOpts false maxUpstreamBody).maxResponseBody < 4096 then 4096
  else (pendingOpts false maxUpstreamBody).maxResponseBody

/-- The outcome of a request as it is handed over: an I/O error whenever the client returns one. -/
def executedUpstream (net : Network) (creq : EdgeHttpClientReq) (allowBlockingDns : Bool)
    (maxUpstreamBody : ℕ) : EdgeHttpClientResult :=
  let (up, rc) := edgeOutboundHttpExecute net creq (pendingOpts allowBlockingDns maxUpstreamBody)
    (pendingCap maxUpstreamBody)
  if rc ≠ 0 then { up with transportErr := EIO } else up

/-- The result that `edge_plugin_host_finish_pending_sync` hands over, with the ids that correlate it. -/
def pendingUpstream (net : Network) (h : EdgePluginHost P) (creq : EdgeHttpClientReq)
    (allowBlockingDns : Bool) (maxUpstreamBody : ℕ) : EdgeHttpClientResult :=
  { executedUpstream net creq allowBlockingDns maxUpstreamBody with
    outboundId := h.lastOutboundId
    userTag := creq.userTag }

/-- The execution of the request that the host keeps. -/
def executeLast (net : Network) (h : EdgePluginHost P) (creq : EdgeHttpClientReq)
    (allowBlockingDns : Bool) (maxUpstreamBody : ℕ) : EdgePluginHost P × EdgeHttpClientResult :=
  (h.note (.executed h.lastOutboundId), pendingUpstream net h creq allowBlockingDns maxUpstreamBody)

/-- `edge_plugin_host_finish_pending_sync`; `alloc` says whether the body buffer can be allocated. -/
def edgePluginHostFinishPendingSync (vtbl : P → Option (EdgePluginVtbl υ)) (net : Network)
    (alloc : Bool) (h : EdgePluginHost P) (mem : υ) (allowBlockingDns : Bool)
    (maxUpstreamBody : ℕ) (res : EdgeHttpRes) : HostResult P υ :=
  match edgePluginHostLastClientReq h with
  | none => ⟨h, mem, res, EDGE_PLUGIN_ERR⟩
  | some creq =>
    if h.lastOutboundId = 0 then ⟨h, mem, res, EDGE_PLUGIN_ERR⟩
    else if !alloc then
      let res := (edgeHttpResSetBody { res with status := 500 }
        (bytes "\x7b\"error\":\"NOMEM\"\x7d") 16).1
      ⟨(releaseOutbound h h.lastOutboundId).1, mem, res, EDGE_PLUGIN_ERR⟩
    else
      let (h, upstream) := executeLast net h creq allowBlockingDns maxUpstreamBody
      edgePluginHostCompleteOutbound vtbl h mem upstream res

end Pending

/-! ## The stream -/

/-- What arrives on a connection until the reads stop, and whether they stop with an error;
`started` says whether data has arrived already. -/
def arrived (https : Bool) : Bool → List ReadEvent → Bytes × Bool
  | _, [] => ([], false)
  | _, .data [] :: _ => ([], false)
  | _, .data (b :: bs) :: es => (b :: bs ++ (arrived https true es).1, (arrived https true es).2)
  | started, .intr :: es => arrived https started es
  | started, .idle ready :: es =>
    if !https || ready then arrived https started es else ([], !started)
  | _, .err :: _ => ([], true)

/-- The reads stop with an error before the buffer is full. -/
def ReadBreaks (https : Bool) (cap : ℕ) (es : List ReadEvent) : Prop :=
  (arrived https false es).2 ∧ (arrived https false es).1.length < cap

instance (https : Bool) (cap : ℕ) (es : List ReadEvent) : Decidable (ReadBreaks https cap es) :=
  inferInstanceAs (Decidable (_ ∧ _))

/-- The bytes that a reader holding `acc` ends up with when `rest` arrives. -/
def collected (cap : ℕ) (acc : Bytes) (rest : Bytes × Bool) : Option Bytes :=
  if rest.2 ∧ acc.length + rest.1.length < cap then none else some (acc ++ rest.1.take (cap - acc.length))

theorem collected_nil (cap : ℕ) (acc : Bytes) : collected cap acc ([], false) = some acc := by
  simp [collected]

theorem collected_full {cap : ℕ} {acc : Bytes} (h : cap ≤ acc.length) (rest : Bytes × Bool) :
    collected cap acc rest = some acc := by
  rw [collected, if_neg (by omega), Nat.sub_eq_zero_of_le h, List.take_zero, List.append_nil]

/-- Taking in a chunk first. -/
theorem collected_append {cap : ℕ} {acc : Bytes} (h : acc.length < cap) (bs : Bytes)
    (rest : Bytes × Bool) :
    collected cap (acc ++ bs.take (cap - acc.length)) rest =
      collected cap acc (bs ++ rest.1, rest.2) := by
  have hlen : (acc ++ bs.take (cap - acc.length)).length = min cap (acc.length + bs.length) := by
    rw [List.length_append, List.length_take]; omega
  unfold collected
  rw [hlen]
  simp only [List.length_append]
  have hiff : (rest.2 = true ∧ min cap (acc.length + bs.length) + rest.1.length < cap)
      ↔ (rest.2 = true ∧ acc.length + (bs.length + rest.1.length) < cap) := by
    constructor <;> rintro ⟨h2, hlt⟩ <;> exact ⟨h2, by omega⟩
  rw [if_congr hiff rfl rfl, List.append_assoc, List.take_append]
  congr 4
  congr 1
  omega

theorem ioReadAllFd_eq (cap : ℕ) (es : List ReadEvent) : ∀ (acc : Bytes) (started : Bool),
    ioReadAllFd cap es acc = collected cap acc (arrived false started es) := by
  induction es with
  | nil => exact fun acc started => (collected_nil cap acc).symm
  | cons e es ih =>
    intro acc started
    by_cases hfull : acc.length ≥ cap
    · rw [collected_full hfull, ioReadAllFd.eq_def]
      exact if_pos hfull
    rw [ioReadAllFd.eq_def]
    refine (if_neg hfull).trans ?_
    match e with
    | .data [] => exact (collected_nil cap acc).symm
    | .data (b :: bs) => exact (ih _ true).trans (collected_append (by omega) _ _)
    | .intr => exact ih acc started
    | .idle ready => exact ih acc started
    | .err => exact (if_pos ⟨rfl, by simp only [arrived, List.length_nil]; omega⟩).symm

theorem edgeTlsReadAllPoll_eq (cap : ℕ) (es : List ReadEvent) : ∀ (acc : Bytes),
    edgeTlsReadAllPoll cap es acc = collected cap acc (arrived true (acc ≠ []) es) := by
  induction es with
  | nil => exact fun acc => (collected_nil cap acc).symm
  | cons e es ih =>
    intro acc
    by_cases hfull : acc.length ≥ cap
    · rw [collected_full hfull, edgeTlsReadAllPoll.eq_def]
      exact if_pos hfull
    rw [edgeTlsReadAllPoll.eq_def]
    refine (if_neg hfull).trans ?_
    match e with
    | .data [] => exact (collected_nil cap acc).symm
    | .data (b :: bs) =>
      have hne : acc ++ (b :: bs).take (cap - acc.length) ≠ [] := by
        rw [ne_eq, List.append_eq_nil_iff, List.take_eq_nil_iff]
        rintro ⟨-, hzero | hnil⟩
        · omega
        · exact absurd hnil (List.cons_ne_nil b bs)
      refine (ih _).trans ?_
      rw [decide_eq_true hne]
      exact collected_append (by omega) _ _
    | .intr => exact ih acc
    | .idle true => exact ih acc
    | .idle false =>
      by_cases hacc : acc = []
      · rw [if_pos hacc, arrived]
        exact (if_pos ⟨by simp [hacc], Nat.lt_of_not_le hfull⟩).symm
      · rw [if_neg hacc, arrived]
        simp [hacc, collected]
    | .err => exact (if_pos ⟨rfl, by simp only [arrived, List.length_nil]; omega⟩).symm

/-- **A read loop yields the first bytes of the stream**, unless the stream breaks off too early. -/
theorem readAll_eq (https : Bool) (cap : ℕ) (es : List ReadEvent) :
    readAll https cap es
      = if ReadBreaks https cap es then none else some ((arrived https false es).1.take cap) := by
  have hcollect : collected cap [] (arrived https false es)
      = if ReadBreaks https cap es then none else some ((arrived https false es).1.take cap) := by
    exact if_congr (by simp [ReadBreaks]) rfl (by simp)
  rw [← hcollect, readAll]
  split_ifs with h
  · rw [h]; exact edgeTlsReadAllPoll_eq cap es []
  · rw [Bool.eq_false_iff.mpr h]; exact ioReadAllFd_eq cap es [] false

/-! ## A response -/

def asciiLower (c : UInt8) : UInt8 := if 65 ≤ c ∧ c ≤ 90 then c + 32 else c

/-- The header block of an HTTP/1.1 response that declares a content length of `n`. -/
structure ResponseHead (head : Bytes) (n : ℕ) : Prop where
  statusLine : ∃ code c rest, 100 ≤ code ∧ code ≤ 599 ∧ (c = 32 ∨ c = 13) ∧
    head = bytes "HTTP/1.1 " ++ decimal code ++ c :: rest
  ends : strstr head crlf2 = some crlf2
  contentLength : ∃ name blanks, name.map asciiLower = bytes "content-length" ∧
    blanks.all isBlank ∧
    (crlf ++ name ++ charByte ':' :: blanks ++ decimal n ++ crlf) <:+: head

theorem length_decimal_status {code : ℕ} (hlo : 100 ≤ code) (hhi : code ≤ 599) :
    (decimal code).length = 3 := by
  have h : ∀ code < 600, 100 ≤ code → (decimal code).length = 3 := by decide +kernel
  exact h code (by omega) hlo

/-- A number that ends in front of a byte of another kind. -/
theorem strtoll_decimal {n : ℕ} (hn : n < 2 ^ 63) {c : UInt8} (hc : ¬isdigit c) (s : Bytes) :
    strtoll (decimal n ++ c :: s) = ((n : ℤ), c :: s) :=
  @strtoll_decimalInt n (by omega) (by omega) c hc s

/-- **The body is what stands behind the header block.** -/
theorem parseStatusAndBody_append {head : Bytes} {n : ℕ} (h : ResponseHead head n) (b : Bytes) :
    ∃ code, parseStatusAndBody (head ++ b) = some (code, b) := by
  obtain ⟨code, c, rest, hlo, hhi, hc, hhead⟩ := h.statusLine
  have hdigits := length_decimal_status hlo hhi
  have hdigit : ¬isdigit c := by rcases hc with rfl | rfl <;> decide
  have htext : head ++ b = bytes "HTTP/1.1" ++ 32 :: (decimal code ++ c :: (rest ++ b)) := by
    rw [hhead, show bytes "HTTP/1.1 " = bytes "HTTP/1.1" ++ [32] by decide]
    simp only [List.append_assoc, List.cons_append, List.nil_append]
  have hlen : ¬(head ++ b).length < 12 := by
    rw [htext, List.length_append, List.length_cons, List.length_append, hdigits, List.length_cons,
      show (bytes "HTTP/1.1").length = 8 by decide]
    omega
  have hversion : (bytes "HTTP/1.").isPrefixOf (head ++ b) := by
    rw [htext, List.isPrefixOf_iff_prefix]
    exact (show bytes "HTTP/1." <+: bytes "HTTP/1.1" by decide).trans (List.prefix_append _ _)
  have hclean : 0 ∉ bytes "HTTP/1.1" ++ 32 :: (decimal code ++ [c]) := by
    simp only [List.mem_append, List.mem_cons, not_or]
    refine ⟨by decide, by decide, fun hzero => ?_, ?_⟩
    · exact absurd (isdigit_of_mem_decimal hzero) (by decide)
    · rcases hc with rfl | rfl <;> decide
  have hcstr : cstr (head ++ b) = bytes "HTTP/1.1" ++ 32 :: (decimal code ++ c :: cstr (rest ++ b)) := by
    have hsplit : head ++ b = (bytes "HTTP/1.1" ++ 32 :: (decimal code ++ [c])) ++ (rest ++ b) := by
      rw [htext]
      simp
    rw [hsplit, cstr_append hclean]
    simp
  have hspace : strchr (cstr (head ++ b)) 32 = some (32 :: (decimal code ++ c :: cstr (rest ++ b))) := by
    rw [hcstr, strchr_append (by decide), strchr_cons_self]
  have hnum := strtoll_decimal (n := code) (by omega) hdigit (cstr (rest ++ b))
  -- `strtoll` has moved: it has read the digits of the status.
  have hne : c :: cstr (rest ++ b) ≠ decimal code ++ c :: cstr (rest ++ b) := fun heq => by
    have := congrArg List.length heq
    rw [List.length_append, hdigits] at this
    omega
  refine ⟨code, ?_⟩
  rw [parseStatusAndBody, if_neg hlen, if_neg (by simpa using hversion), hspace]
  dsimp only
  rw [List.drop_one, List.tail_cons, hnum]
  dsimp only
  rw [if_neg (by rintro (heq | hlt | hgt); exacts [hne heq, by omega, by omega]),
    strstr_append_of_some h.ends]
  rfl

/-- A text without the empty line is no response. -/
theorem parseStatusAndBody_of_no_end {raw : Bytes} (h : strstr raw crlf2 = none) :
    parseStatusAndBody raw = none := by
  unfold parseStatusAndBody
  split_ifs
  · rfl
  · rfl
  · split
    · rfl
    · dsimp only
      split_ifs
      · rfl
      · rw [h]; rfl

/-! ## Passing a body on -/

/-- A result with an error, or with exactly the first `n` bytes of the body that the server sent. -/
def CompleteOrError (up : EdgeHttpClientResult) (body : Bytes) (n : ℕ) : Prop :=
  up.transportErr = 0 → n ≤ body.length ∧ up.body = body.take n

theorem completeOrError_failed {err : ℤ} (h : err ≠ 0) (body : Bytes) (n : ℕ) :
    CompleteOrError (.failed err) body n := fun h0 => absurd h0 h

/-- A body cut to `k` bytes is complete when the cut is where its length says. -/
theorem take_complete_iff (body : Bytes) (n k : ℕ) :
    (n ≤ body.length ∧ body.take k = body.take n) ↔ n = min body.length k := by
  constructor
  · rintro ⟨hle, heq⟩
    have := congrArg List.length heq
    rw [List.length_take, List.length_take] at this
    omega
  · rintro rfl
    exact ⟨min_le_left _ _, by rw [List.take_eq_take_iff]; omega⟩

section Complete

variable (net : Network) (req : EdgeHttpClientReq) (opts : EdgeOutboundOpts) (bodyCap : ℕ)

/-- **A body is passed on whole exactly when it ends where its length says and fits both buffers**,
or else the response does not get as far as its body. -/
theorem completeOrError_iff {https : Bool} {es : List ReadEvent} {head body : Bytes} {n : ℕ}
    (hsend : outboundSend net req opts bodyCap = .ok (https, es))
    (hstream : (arrived https false es).1 = head ++ body) (hresp : ResponseHead head n) :
    CompleteOrError (edgeOutboundHttpExecute net req opts bodyCap).1 body n
      ↔ ReadBreaks https opts.rawCap es ∨ opts.rawCap < head.length
        ∨ n = min body.length (min (opts.rawCap - head.length) bodyCap) := by
  rw [edgeOutboundHttpExecute, hsend]
  dsimp only
  rw [readAll_eq, hstream]
  by_cases hbreaks : ReadBreaks https opts.rawCap es
  · rw [if_pos hbreaks]
    exact iff_of_true (completeOrError_failed (by decide) body n) (.inl hbreaks)
  rw [if_neg hbreaks]
  dsimp only
  by_cases hhead : opts.rawCap < head.length
  · have hcut : (head ++ body).take opts.rawCap = head.take opts.rawCap :=
      List.take_append_of_le_length hhead.le
    rw [hcut, parseStatusAndBody_of_no_end (strstr_take_of_end hresp.ends hhead)]
    exact iff_of_true (completeOrError_failed (by decide) body n) (.inr (.inl hhead))
  · have hcut : (head ++ body).take opts.rawCap = head ++ body.take (opts.rawCap - head.length) := by
      rw [List.take_append, List.take_of_length_le (Nat.le_of_not_lt hhead)]
    obtain ⟨code, hparse⟩ := parseStatusAndBody_append hresp (body.take (opts.rawCap - head.length))
    rw [hcut, hparse]
    have hbody : CompleteOrError { EdgeHttpClientResult.failed 0 with
          status := code, body := (body.take (opts.rawCap - head.length)).take bodyCap } body n
        ↔ n = min body.length (min (opts.rawCap - head.length) bodyCap) := by
      rw [CompleteOrError, List.take_take, min_comm bodyCap]
      exact (forall_prop_of_true rfl).trans (take_complete_iff body n _)
    rw [hbody]
    exact ⟨fun h => .inr (.inr h), fun h => (h.resolve_left hbreaks).resolve_left hhead⟩

end Complete

/-- Whatever fails before the reads is an error. -/
theorem outboundSend_error {net : Network} {req : EdgeHttpClientReq} {opts : EdgeOutboundOpts}
    {bodyCap : ℕ} {e : ℤ × ℤ} (h : outboundSend net req opts bodyCap = .error e) : e.1 ≠ 0 := by
  unfold outboundSend at h
  repeat' split at h
  all_goals cases h
  all_goals decide

/-- A failure that shows in the return value is one of the result, too. -/
theorem execute_failed (net : Network) (req : EdgeHttpClientReq) (opts : EdgeOutboundOpts)
    (bodyCap : ℕ) (hrc : (edgeOutboundHttpExecute net req opts bodyCap).2 ≠ 0) :
    (edgeOutboundHttpExecute net req opts bodyCap).1.transportErr ≠ 0 := by
  unfold edgeOutboundHttpExecute at hrc ⊢
  cases hsend : outboundSend net req opts bodyCap with
  | error e => exact outboundSend_error hsend
  | ok got =>
    rw [hsend] at hrc
    dsimp only at hrc ⊢
    cases hread : readAll got.1 opts.rawCap got.2 with
    | none => exact show EIO ≠ 0 by decide
    | some raw =>
      rw [hread] at hrc
      dsimp only at hrc ⊢
      cases hparse : parseStatusAndBody raw with
      | none => exact show EPROTO ≠ 0 by decide
      | some out =>
        rw [hparse] at hrc
        exact absurd rfl hrc

/-- What is handed over is complete or an error just as the result of the request is. -/
theorem completeOrError_pendingUpstream {P : Type*} (net : Network) (h : EdgePluginHost P)
    (creq : EdgeHttpClientReq) (allowBlockingDns : Bool) (maxUpstreamBody : ℕ) (body : Bytes) (n : ℕ) :
    CompleteOrError (pendingUpstream net h creq allowBlockingDns maxUpstreamBody) body n ↔
      CompleteOrError (edgeOutboundHttpExecute net creq (pendingOpts allowBlockingDns maxUpstreamBody)
        (pendingCap maxUpstreamBody)).1 body n := by
  have hfailed := execute_failed net creq (pendingOpts allowBlockingDns maxUpstreamBody)
    (pendingCap maxUpstreamBody)
  unfold CompleteOrError pendingUpstream executedUpstream
  generalize edgeOutboundHttpExecute net creq (pendingOpts allowBlockingDns maxUpstreamBody)
    (pendingCap maxUpstreamBody) = r at hfailed ⊢
  obtain ⟨up, rc⟩ := r
  dsimp only at hfailed ⊢
  by_cases hrc : rc = 0
  · rw [if_neg (not_not.mpr hrc)]
  · rw [if_pos hrc]
    exact iff_of_true (fun herr => absurd herr (show ¬ EIO = 0 by decide))
      fun herr => absurd herr (hfailed hrc)

/-- **A pending plugin gets a body whole or an error exactly when** the body ends where its length
says and fits the buffers, or the response does not get as far as its body. -/
theorem finishPending_complete_iff {P υ : Type*} (vtbl : P → Option (EdgePluginVtbl υ))
    (net : Network) (h : EdgePluginHost P) (mem : υ) (res : EdgeHttpRes) (allowBlockingDns : Bool)
    (maxUpstreamBody : ℕ) {creq : EdgeHttpClientReq} {https : Bool} {es : List ReadEvent}
    {head body : Bytes} {n : ℕ} (hreq : edgePluginHostLastClientReq h = some creq)
    (hid : h.lastOutboundId ≠ 0)
    (hsend : outboundSend net creq (pendingOpts allowBlockingDns maxUpstreamBody)
      (pendingCap maxUpstreamBody) = .ok (https, es))
    (hstream : (arrived https false es).1 = head ++ body) (hresp : ResponseHead head n) :
    (edgePluginHostFinishPendingSync vtbl net true h mem allowBlockingDns maxUpstreamBody res
        = edgePluginHostCompleteOutbound vtbl (h.note (.executed h.lastOutboundId)) mem
            (pendingUpstream net h creq allowBlockingDns maxUpstreamBody) res)
      ∧ (CompleteOrError (pendingUpstream net h creq allowBlockingDns maxUpstreamBody) body n
        ↔ ReadBreaks https (pendingOpts allowBlockingDns maxUpstreamBody).rawCap es
          ∨ (pendingOpts allowBlockingDns maxUpstreamBody).rawCap < head.length
          ∨ n = min body.length
            (min ((pendingOpts allowBlockingDns maxUpstreamBody).rawCap - head.length)
              (pendingCap maxUpstreamBody))) := by
  constructor
  · rw [edgePluginHostFinishPendingSync, hreq]
    exact if_neg hid
  · rw [completeOrError_pendingUpstream]
    exact completeOrError_iff net creq _ _ hsend hstream hresp

/-- A host whose plugin waits for a request to `http://u/`. -/
def waitingHost : EdgePluginHost Unit :=
  { edgePluginHostCreate 1 none with
    lastMethod := bytes "GET"
    lastUrl := bytes "http://u/"
    lastReq :=
      { host := false, addrOverride := false, body := false, bodyLen := 0, timeoutMs := 0
        userTag := 0, nHeaders := 0 }
    lastOutboundId := 1
    hasLastReq := true }

/-- That request. -/
def waitingRequest : EdgeHttpClientReq where
  method := some (bytes "GET")
  url := some (bytes "http://u/")
  host := none
  addrOverride := none
  hdrNames := []
  hdrValues := []
  nHeaders := 0
  body := none
  bodyLen := 0
  timeoutMs := 0
  userTag := 0

/-- A network where every request is answered by one chunk of data. -/
def answering (data : Bytes) : Network where
  allocRequest := true
  allocRaw := true
  connectAddr _ _ := true
  connectHost _ _ := true
  tlsOpen _ := true
  tlsHandshake _ := true
  write _ := true
  reads _ := [.data data]

/-- The header block of a response that declares two bytes. -/
def twoBytesHead : Bytes := bytes "HTTP/1.1 200 OK" ++ crlf ++ bytes "Content-Length: 2" ++ crlf2

theorem twoBytesHead_response : ResponseHead twoBytesHead 2 where
  statusLine := ⟨200, 32, bytes "OK" ++ crlf ++ bytes "Content-Length: 2" ++ crlf2,
    by omega, by omega, .inl rfl, by decide⟩
  ends := by decide +kernel
  contentLength := ⟨bytes "Content-Length", [32], by decide, by decide, by decide +kernel⟩

/-- The answer that arrives whole is passed on whole. -/
theorem finishPending_complete_two :
    CompleteOrError (pendingUpstream (answering (twoBytesHead ++ bytes "ok")) waitingHost
      waitingRequest true 0) (bytes "ok") 2 :=
  have hsend : outboundSend (answering (twoBytesHead ++ bytes "ok")) waitingRequest
      (pendingOpts true 0) (pendingCap 0) = .ok (false, [.data (twoBytesHead ++ bytes "ok")]) := by
    rfl
  have hstream : (arrived false false [.data (twoBytesHead ++ bytes "ok")]).1
      = twoBytesHead ++ bytes "ok" := by
    decide +kernel
  (finishPending_complete_iff (fun _ => none) (answering (twoBytesHead ++ bytes "ok")) waitingHost
    () ⟨0, [], [], none, 0, 0⟩ true 0 rfl (by decide) hsend hstream twoBytesHead_response).2.mpr
      (.inr (.inr (by decide +kernel)))

/-- The answer that breaks off after one byte of two is passed on as a success. -/
theorem not_finishPending_complete_one :
    ResponseHead twoBytesHead 2
      ∧ (edgePluginHostFinishPendingSync (fun _ => none) (answering (twoBytesHead ++ bytes "o")) true
          waitingHost () true 0 ⟨0, [], [], none, 0, 0⟩
        = edgePluginHostCompleteOutbound (fun _ => none) (waitingHost.note (.executed 1)) ()
          (pendingUpstream (answering (twoBytesHead ++ bytes "o")) waitingHost waitingRequest true 0)
          ⟨0, [], [], none, 0, 0⟩)
      ∧ ¬CompleteOrError (pendingUpstream (answering (twoBytesHead ++ bytes "o")) waitingHost
        waitingRequest true 0) (bytes "o") 2 :=
  ⟨twoBytesHead_response, rfl, fun h => absurd (h (by decide +kernel)).1 (by decide)⟩

end Edgehost
