import Edgehost.Common.HttpText
import Edgehost.Core.AuthSession
import Edgehost.Host.OpenaiErrors
import Edgehost.Host.PluginReplies
import Edgehost.Host.StreamLaws
import Edgehost.Host.UpstreamWire

/-!
# A response on the wire

Whatever a client sends, what `edge_http1_serve_feed` hands to the connection is one HTTP message: a
strict reader takes exactly its bytes. The plugins may set a reason and a content type; the host
writes all the rest.

* `feed_oneMessage`   — every answer of every route is one message.
* `answer_forwarded`  — the client of another edgehost takes its status and its body out of it, however
  the bytes arrive.
-/

namespace Edgehost

variable {η P υ : Type*}

/-! ## Responses as messages -/

/-- The start line of a response. -/
def statusLine (status : ℤ) (reason : Bytes) : StartLine where
  first := bytes "HTTP/1.1"
  second := decimalInt status
  third := reason

/-- The message that a response is. -/
def responseMessage (status : ℤ) (reason ctype : Bytes) (extras : List (Bytes × Bytes)) (body : Bytes) :
    HttpText where
  start := statusLine status reason
  headers := [(bytes "Content-Type", ctype), (bytes "Content-Length", decimal body.length)] ++ extras
    ++ [(bytes "Connection", bytes "close")]
  body := body

/-- **`build_response_ex` writes that message.** -/
theorem responseHead_append (status : ℤ) (reason ctype : Bytes) (extras : List (Bytes × Bytes))
    (body : Bytes) :
    responseHead status reason ctype (extras.flatMap headerText) body.length ++ body
      = (responseMessage status reason ctype extras body).render := by
  have htype : bytes "Content-Type: " = bytes "Content-Type" ++ [58, 32] := by decide
  have hlen : bytes "Content-Length: " = bytes "Content-Length" ++ [58, 32] := by decide
  have hclose : bytes "Connection: close" = bytes "Connection" ++ 58 :: 32 :: bytes "close" := by decide
  have hversion : bytes "HTTP/1.1 " = bytes "HTTP/1.1" ++ [32] := by decide
  unfold responseHead HttpText.render responseMessage StartLine.text statusLine
  rw [htype, hlen, hclose, hversion]
  simp only [List.flatMap_append, List.flatMap_cons, List.flatMap_nil, headerText, lineEnd, crlf, crlf2,
    List.append_assoc, List.cons_append, List.nil_append, List.append_nil]

/-- A text that the head of a response may hold: it stays on its line. -/
structure CleanValue (v : Bytes) : Prop where
  oneLine : ¬lineEnd <:+: v
  trimmed : trimOws v = v

instance (v : Bytes) : Decidable (CleanValue v) :=
  decidable_of_iff (¬lineEnd <:+: v ∧ trimOws v = v) ⟨fun h => ⟨h.1, h.2⟩, fun h => ⟨h.1, h.2⟩⟩

/-- A header with a token for its name and a clean value. -/
theorem cleanHeader_named {name v : Bytes} (hne : name ≠ []) (htoken : ∀ c ∈ name, isTokenByte c)
    (hv : CleanValue v) : CleanHeader (name, v) :=
  ⟨hne, htoken, hv.oneLine, hv.trimmed⟩

/-- A decimal numeral is a word. -/
theorem isWord_decimalInt (v : ℤ) : IsWord (decimalInt v) := by
  refine ⟨decimalInt_ne_nil v, fun hin => ?_⟩
  rcases mem_decimalInt hin with hdigit | hminus
  · exact absurd hdigit (by decide)
  · exact absurd hminus (by decide)

/-- A status line is one line when its reason is. -/
theorem statusLine_clean (status : ℤ) {reason : Bytes} (hreason : ¬lineEnd <:+: reason) :
    ¬lineEnd <:+: (statusLine status reason).text := by
  unfold StartLine.text statusLine
  dsimp only
  rw [lineEnd_infix_append_iff (by decide) (by decide),
    lineEnd_infix_append_iff (by decide) (by decide), not_or, not_or]
  refine ⟨by decide, fun hin => ?_, hreason⟩
  rcases mem_decimalInt (hin.subset (List.mem_cons_self ..)) with hdigit | hminus
  · exact absurd hdigit (by decide)
  · exact absurd hminus (by decide)

/-- A response is clean when its reason, its type and the extra headers are. -/
theorem responseMessage_clean (status : ℤ) {reason ctype : Bytes} {extras : List (Bytes × Bytes)}
    (body : Bytes) (hreason : ¬lineEnd <:+: reason) (hctype : CleanValue ctype)
    (hextras : ∀ h ∈ extras, CleanHeader h) (hframes : ∀ h ∈ extras, ¬Frames h.1) :
    (responseMessage status reason ctype extras body).Clean where
  first := show IsWord (bytes "HTTP/1.1") by decide
  second := isWord_decimalInt status
  start := statusLine_clean status hreason
  headers h hh := by
    simp only [responseMessage, List.mem_append, List.mem_cons, List.not_mem_nil, or_false] at hh
    rcases hh with ((rfl | rfl) | hh) | rfl
    · exact cleanHeader_named (show bytes "Content-Type" ≠ [] by decide) (by decide) hctype
    · exact cleanHeader_decimal _
    · exact hextras h hh
    · exact ⟨by decide, by decide, by decide, by decide⟩
  framed := by
    have hheaders : (responseMessage status reason ctype extras body).headers
        = [(bytes "Content-Type", ctype)] ++ (bytes "Content-Length", decimal body.length) ::
            (extras ++ [(bytes "Connection", bytes "close")]) := by simp [responseMessage]
    rw [hheaders]
    refine (bodyLength_append_iff body.length).mpr fun h hh => ?_
    simp only [List.cons_append, List.nil_append, List.mem_cons, List.mem_append, List.not_mem_nil,
      or_false] at hh
    rcases hh with rfl | hh | rfl
    · exact show ¬Frames (bytes "Content-Type") by decide
    · exact hframes h hh
    · exact show ¬Frames (bytes "Connection") by decide

/-- The cookies that a message sets. -/
def setCookies (m : HttpText) : List Bytes := headerValues (bytes "set-cookie") m.headers

/-- The bytes are one message, a response that sets these cookies. -/
def OneMessage (cookies : List Bytes) (out : Bytes) : Prop :=
  ∃ m : HttpText, m.Clean ∧ out = m.render ∧ setCookies m = cookies ∧
    ∃ (status : ℤ) (reason : Bytes), m.start = statusLine status reason

/-- A call that answers leaves one message, which sets no cookies. -/
def OneReply (r : Served η P υ) : Prop := r.ret = 1 → OneMessage [] r.out

/-- The cookies of a response are those among the extra headers. -/
theorem setCookies_response (status : ℤ) (reason ctype body : Bytes) (extras : List (Bytes × Bytes)) :
    setCookies (responseMessage status reason ctype extras body)
      = headerValues (bytes "set-cookie") extras := by
  unfold setCookies responseMessage
  rw [headerValues_append, headerValues_append]
  exact List.append_nil _

/-- What `build_response_ex` writes is one message when no extra header has a part in the framing. -/
theorem oneMessage_of_build {outCap : ℕ} {status : ℤ} {reason ctype body out : Bytes}
    {extras : List (Bytes × Bytes)} (hreason : ¬lineEnd <:+: reason) (hctype : CleanValue ctype)
    (hextras : ∀ h ∈ extras, CleanHeader h) (hframes : ∀ h ∈ extras, ¬Frames h.1)
    (h : buildResponseEx outCap status reason ctype (extras.flatMap headerText) body = some out) :
    OneMessage (headerValues (bytes "set-cookie") extras) out := by
  unfold buildResponseEx at h
  obtain ⟨-, h⟩ := Option.ite_none_left_eq_some.mp h
  dsimp only at h
  obtain ⟨-, h⟩ := Option.ite_none_left_eq_some.mp h
  obtain ⟨-, h⟩ := Option.ite_none_left_eq_some.mp h
  obtain rfl := Option.some.inj h
  exact ⟨_, responseMessage_clean status body hreason hctype hextras hframes,
    responseHead_append status reason ctype extras body, setCookies_response .., status, reason, rfl⟩

section Routes

variable {env : ServeEnv η P υ} {s : EdgeHttp1Serve η} {w : ServeWorld P υ} {outCap : ℕ}

/-- The same of an answer that is sent. -/
theorem oneMessage_answerEx {status : ℤ} {reason ctype body : Bytes} {extras : List (Bytes × Bytes)}
    (hreason : ¬lineEnd <:+: reason) (hctype : CleanValue ctype) (hextras : ∀ h ∈ extras, CleanHeader h)
    (hframes : ∀ h ∈ extras, ¬Frames h.1)
    (hret : (answerEx s w outCap status reason ctype (extras.flatMap headerText) body).ret = 1) :
    OneMessage (headerValues (bytes "set-cookie") extras)
      (answerEx s w outCap status reason ctype (extras.flatMap headerText) body).out := by
  unfold answerEx at hret ⊢
  cases hbuild : buildResponseEx outCap status reason ctype (extras.flatMap headerText) body with
  | none =>
    rw [hbuild] at hret
    exact absurd hret (show ¬(-1 : ℤ) = 1 by decide)
  | some out => exact oneMessage_of_build hreason hctype hextras hframes hbuild

/-- Without extra headers an answer sets no cookie. -/
theorem oneReply_answer {status : ℤ} {reason ctype body : Bytes} (hreason : ¬lineEnd <:+: reason)
    (hctype : CleanValue ctype) : OneReply (answer s w outCap status reason ctype body) :=
  @oneMessage_answerEx η P υ s w outCap status reason ctype body [] hreason hctype
    (fun _ hh => absurd hh List.not_mem_nil) fun _ hh => absurd hh List.not_mem_nil

theorem oneReply_json {status : ℤ} {reason body : Bytes} (hreason : ¬lineEnd <:+: reason) :
    OneReply (answer s w outCap status reason jsonType body) :=
  oneReply_answer hreason (by decide)

theorem oneReply_text {status : ℤ} {reason body : Bytes} (hreason : ¬lineEnd <:+: reason) :
    OneReply (answer s w outCap status reason (bytes "text/plain") body) :=
  oneReply_answer hreason (by decide)

/-- Where nothing is sent there is nothing to read. -/
theorem oneReply_of_ret {r : Served η P υ} (h : r.ret ≠ 1) : OneReply r := fun hret => absurd hret h

theorem oneReply_answerMethod : OneReply (answerMethod s w outCap) := oneReply_json (by decide)

theorem oneReply_answerNotFound : OneReply (answerNotFound s w outCap) := oneReply_text (by decide)

theorem oneReply_answerErr (e : EdgeStateErr) : OneReply (answerErr s w outCap e) :=
  oneReply_json (by cases e <;> decide)

/-- A request that is denied is answered with one message. -/
theorem oneReply_requireRbac {res : EdgeAuthResource} {r : Served η P υ}
    (h : requireRbac s w outCap res = some r) : OneReply r := by
  unfold requireRbac at h
  split_ifs at h
  all_goals
    obtain rfl := Option.some.inj h
    exact oneReply_json (by decide)

/-! ## The files -/

/-- The content types are fixed texts. -/
theorem cleanValue_contentType (path : Bytes) : CleanValue (edgeStaticContentType path 96) := by
  have htable : ∀ p ∈ contentTypes, CleanValue (snprintf 96 (bytes p.2)) := by decide
  unfold edgeStaticContentType
  dsimp only
  split
  · exact htable _ (List.mem_of_find?_eq_some ‹_›)
  · decide

/-- A file is one message; without it the next route answers. -/
theorem oneReply_serveStatic {root : Option Bytes} {url : Bytes} {maxFile : ℕ}
    {next : Served η P υ} (hnext : OneReply next) :
    OneReply (serveStatic s w (tryStatic env root url maxFile outCap) next) := by
  unfold serveStatic
  cases hfile : tryStatic env root url maxFile outCap with
  | none => exact hnext
  | some out =>
    intro _
    unfold tryStatic at hfile
    cases root with
    | none => cases hfile
    | some root =>
      dsimp only at hfile
      obtain ⟨-, hfile⟩ := Option.ite_none_left_eq_some.mp hfile
      split at hfile
      · cases hfile
      next body ctype hload =>
        obtain ⟨-, hfile⟩ := Option.ite_none_left_eq_some.mp hfile
        have hctype : CleanValue ctype := by
          simp only [edgeStaticLoad, Option.bind_eq_bind, Option.bind_eq_some_iff, Option.some.injEq,
            Prod.mk.injEq] at hload
          obtain ⟨_, -, path, -, _, -, -, rfl⟩ := hload
          exact cleanValue_contentType path
        exact @oneMessage_of_build outCap 200 (bytes "OK") ctype body out [] (by decide) hctype
          (fun _ hh => absurd hh List.not_mem_nil) (fun _ hh => absurd hh List.not_mem_nil) hfile

/-- The files of the application. -/
theorem oneReply_dispatchSpa : OneReply (dispatchSpa env s w outCap) := by
  unfold dispatchSpa
  dsimp only
  by_cases hroot : s.roots.spaRoot.getD [] ≠ []
  · rw [if_pos hroot]
    generalize (if s.path = [] then [slash] else s.path) = url
    refine oneReply_serveStatic ?_
    split_ifs
    · exact oneReply_answerNotFound
    · exact oneReply_serveStatic oneReply_answerNotFound
  · rw [if_neg hroot]
    split_ifs
    · exact oneReply_text (by decide)
    · exact oneReply_answerNotFound

/-- The routes for GET. -/
theorem oneReply_dispatchGet : OneReply (dispatchGet env s w outCap) := by
  unfold dispatchGet
  by_cases hmethod : s.method ≠ [] ∧ s.method ≠ bytes "GET"
  · rw [if_pos hmethod]
    exact oneReply_text (by decide)
  rw [if_neg hmethod]
  by_cases hhealth : pathIsHealth s.path
  · rw [if_pos hhealth, dispatchHealth]
    split
    · exact oneReply_text (by decide)
    · exact oneReply_json (by decide)
  rw [if_neg hhealth]
  cases pathIsPackages s.path with
  | none => exact oneReply_dispatchSpa
  | some suffix =>
    dsimp only
    unfold dispatchPackages
    cases hrbac : requireRbac s w outCap .resPackages with
    | some denied => exact oneReply_requireRbac hrbac
    | none => exact oneReply_serveStatic oneReply_answerNotFound

/-! ## The login -/

/-- The value of the cookie header of a login. -/
def cookieText (cookieVal : Bytes) (ttl : UInt32) : Bytes :=
  EDGE_AUTH_COOKIE_NAME ++ bytes "=" ++ cookieVal
    ++ bytes "; HttpOnly; Path=/; SameSite=Lax; Max-Age=" ++ decimal ttl.toNat

/-- The text of a cookie is the line of one header. -/
theorem setCookieLine_eq (cookieVal : Bytes) (ttl : UInt32) :
    setCookieLine cookieVal ttl = [(bytes "Set-Cookie", cookieText cookieVal ttl)].flatMap headerText := by
  have hname : bytes "Set-Cookie: " = bytes "Set-Cookie" ++ [58, 32] := by decide
  rw [List.flatMap_singleton]
  unfold setCookieLine headerText cookieText
  rw [hname]
  simp only [lineEnd, crlf, List.append_assoc, List.cons_append, List.nil_append]

/-- A cookie is made of bytes that need no quoting in a header. -/
theorem isTokenByte_of_mem_sealedCookie {key payload : Bytes} {c : UInt8}
    (h : c ∈ sealedCookie key payload) : isTokenByte c := by
  have hdigit : ∀ d < 64, isTokenByte (b64UrlDigit d) := by decide +kernel
  rcases List.mem_append.mp h with hpay | hrest
  · obtain ⟨d, hd, rfl⟩ := List.mem_map.mp hpay
    exact hdigit d (b64Digits_lt _ d hd)
  · rcases List.mem_cons.mp hrest with rfl | hsig
    · decide
    · obtain ⟨d, hd, rfl⟩ := List.mem_map.mp hsig
      exact hdigit d (b64Digits_lt _ d hd)

/-- A cookie of token bytes is a clean header. -/
theorem cleanHeader_cookie {cookieVal : Bytes} (hval : ∀ c ∈ cookieVal, isTokenByte c) (ttl : UInt32) :
    CleanHeader (bytes "Set-Cookie", cookieText cookieVal ttl) := by
  have hfront : 13 ∉ EDGE_AUTH_COOKIE_NAME ++ bytes "=" := by decide
  have hback : 13 ∉ bytes "; HttpOnly; Path=/; SameSite=Lax; Max-Age=" := by decide
  have hnum := not_mem_decimal (c := 13) (by decide) ttl.toNat
  refine cleanHeader_of_not_mem (by decide) (by decide) ?_ (trimOws_eq_self ?_ ?_)
  · unfold cookieText
    simp only [List.mem_append] at hfront hback ⊢
    rintro (((hin | hin) | hin) | hin)
    · exact hfront hin
    · exact (isTokenByte_of_mem (hval 13 hin)).2.1 rfl
    · exact hback hin
    · exact hnum hin
  · intro c hc
    have hhead : c = charByte 'e' := (Option.some.inj hc).symm
    rw [hhead]
    decide
  · intro c hc
    rw [cookieText, List.getLast?_append_of_ne_nil _ (decimal_ne_nil _)] at hc
    have hrange := isdigit_iff.mp (isdigit_of_mem_decimal (List.mem_of_getLast? hc))
    intro hows
    rcases Bool.or_eq_true_iff.mp hows with hspace | htab
    · obtain rfl := of_decide_eq_true hspace
      exact absurd hrange (by decide)
    · obtain rfl := of_decide_eq_true htab
      exact absurd hrange (by decide)

/-- An issued cookie. -/
theorem isTokenByte_of_issued {ctx : EdgeAuthCtx} {clock : Clock} {sub : Option Bytes} {roles : UInt32}
    {size : ℕ} {cookieVal : Bytes} {p : EdgePrincipal}
    (h : edgeAuthSessionIssue (some ctx) clock sub roles size = some (cookieVal, p)) :
    ∀ c ∈ cookieVal, isTokenByte c := by
  rw [edgeAuthSessionIssue_eq] at h
  obtain ⟨-, h⟩ := Option.ite_none_left_eq_some.mp h
  obtain ⟨rfl, -⟩ := Prod.mk.inj (Option.some.inj h)
  exact fun c => isTokenByte_of_mem_sealedCookie

/-- What a login that sets a cookie has been given, and the cookie. -/
structure LoggedIn (clock : Clock) (s : EdgeHttp1Serve η) (ctx : EdgeAuthCtx) (cookieVal : Bytes)
    (p : EdgePrincipal) : Prop where
  path : pathIsLabLogin s.path
  method : s.method = bytes "POST"
  auth : s.auth = some ctx
  mode : ctx.mode = .modeLabPassword
  password : ∃ password, edgeAuthParseLoginPassword (bodyBytes (locateBody s)) EDGE_AUTH_PASSWORD_MAX
    = some password ∧ edgeAuthPasswordOk ctx password
  issued : edgeAuthSessionIssue (some ctx) clock (some (bytes "lab")) EdgeRole.employee.bit
    EDGE_AUTH_COOKIE_MAX = some (cookieVal, p)

/-- The body is found once. -/
theorem locateBody_locateBody (s : EdgeHttp1Serve η) : locateBody (locateBody s) = locateBody s := by
  cases hoff : s.bodyOff with
  | some off =>
    have hlocate : locateBody s = s := by rw [locateBody, hoff]
    rw [hlocate, hlocate]
  | none =>
    have hlocate : locateBody s = markBodyOff s := by rw [locateBody, hoff]
    cases hfind : findBodyOff s.acc with
    | some off => rw [hlocate, markBodyOff, hfind, locateBody]
    | none =>
      have hmark : markBodyOff s = s := by rw [markBodyOff, hfind]
      rw [hlocate, hmark, hlocate, hmark]

/-- Waiting for the body finds it where it is found later. -/
theorem locateBody_waitFullBody (s : EdgeHttp1Serve η) :
    locateBody (waitFullBody s).1 = locateBody s := by
  unfold waitFullBody
  split_ifs
  · rfl
  · exact locateBody_locateBody s

/-- A login is answered with one message. It sets a cookie only when it succeeds, and only its own. -/
theorem oneMessage_login {r : Served η P υ} (h : dispatchLabLogin env s w outCap = some r)
    (hret : r.ret = 1) :
    OneMessage [] r.out ∨ ∃ ctx cookieVal p, LoggedIn env.clock s ctx cookieVal p ∧
      OneMessage [cookieText cookieVal (sessionTtl ctx)] r.out := by
  unfold dispatchLabLogin at h
  split_ifs at h with hpath hmethod
  · obtain rfl := Option.some.inj h
    exact .inl (oneReply_answerMethod hret)
  cases hauth : s.auth.filter fun auth => auth.mode = .modeLabPassword with
  | none =>
    rw [hauth] at h
    obtain rfl := Option.some.inj h
    exact .inl (oneReply_json (by decide) hret)
  | some ctx =>
    rw [hauth] at h
    obtain ⟨hctx, hmode⟩ := Option.filter_eq_some_iff.mp hauth
    dsimp only at h
    split_ifs at h
    split at h
    · obtain rfl := Option.some.inj h
      exact .inl (oneReply_json (by decide) hret)
    next password hparse =>
      rw [getBody, locateBody_waitFullBody] at hparse
      split_ifs at h with hpassword
      · obtain rfl := Option.some.inj h
        exact .inl (oneReply_json (by decide) hret)
      split at h
      · obtain rfl := Option.some.inj h
        exact .inl (oneReply_json (by decide) hret)
      -- The only answer with a cookie, if its line fits.
      next cookieVal issued hissue =>
        split_ifs at h
        · obtain rfl := Option.some.inj h
          exact absurd hret (show ¬(-1 : ℤ) = 1 by decide)
        · obtain rfl := Option.some.inj h
          rw [setCookieLine_eq] at hret ⊢
          refine .inr ⟨ctx, cookieVal, issued, ⟨by simpa using hpath, not_not.mp hmethod, hctx,
            of_decide_eq_true hmode, ⟨password, hparse, by simpa using hpassword⟩, hissue⟩,
            oneMessage_answerEx (by decide) (by decide) ?_ ?_ hret⟩
          · rw [List.forall_mem_singleton]
            exact cleanHeader_cookie (isTokenByte_of_issued hissue) _
          · rw [List.forall_mem_singleton]
            exact show ¬Frames (bytes "Set-Cookie") by decide

theorem oneReply_authMe {r : Served η P υ} (h : dispatchAuthMe s w outCap = some r) : OneReply r := by
  unfold dispatchAuthMe at h
  dsimp only at h
  split_ifs at h
  all_goals obtain rfl := Option.some.inj h
  all_goals first
    | exact oneReply_of_ret (show ¬(-1 : ℤ) = 1 by decide)
    | exact oneReply_json (by decide)

end Routes

/-! ## The handshake -/

/-- The message of a handshake. -/
def switchMessage (accept : Bytes) : HttpText where
  start := statusLine 101 (bytes "Switching Protocols")
  headers := [(bytes "Upgrade", bytes "websocket"), (bytes "Connection", bytes "Upgrade"),
    (bytes "Sec-WebSocket-Accept", accept)]
  body := []

/-- The characters of a standard encoding: none is a blank or ends a line. -/
theorem plain_of_mem_b64Groups {input : Bytes} {c : UInt8} (h : c ∈ b64Groups input) :
    c ≠ 13 ∧ ¬isOws c := by
  rw [b64Groups_eq, List.mem_append] at h
  rcases h with hdigit | hpad
  · obtain ⟨d, hd, rfl⟩ := List.mem_map.mp hdigit
    have hplain : ∀ d < 64, b64Char d ≠ 13 ∧ ¬isOws (b64Char d) := by decide +kernel
    exact hplain d (b64Digits_lt _ d hd)
  · rw [List.eq_of_mem_replicate hpad]
    decide

/-- The answer to an upgrade has no body, and no header that frames one. -/
theorem oneMessage_build101 {secWsKey out : Bytes} {outCap : ℕ}
    (h : edgeWsBuild101 secWsKey outCap = some out) : OneMessage [] out := by
  unfold edgeWsBuild101 edgeWsAcceptKey at h
  dsimp only at h
  split at h
  · cases h
  next accept haccept =>
    obtain ⟨-, haccept⟩ := Option.ite_none_left_eq_some.mp haccept
    obtain ⟨-, h⟩ := Option.ite_none_left_eq_some.mp h
    obtain rfl := Option.some.inj h
    generalize sha1Final _ = dig at haccept
    unfold b64Encode at haccept
    obtain ⟨-, haccept⟩ := Option.ite_none_left_eq_some.mp haccept
    rw [if_neg Bool.false_ne_true] at haccept
    obtain rfl := Option.some.inj haccept
    have hplain := fun c (hc : c ∈ b64Groups dig) => plain_of_mem_b64Groups hc
    refine ⟨switchMessage (b64Groups dig),
      ⟨show IsWord (bytes "HTTP/1.1") by decide, isWord_decimalInt 101,
        statusLine_clean 101 (show ¬lineEnd <:+: bytes "Switching Protocols" by decide), ?_, rfl⟩,
      ?_, rfl, 101, bytes "Switching Protocols", rfl⟩
    · intro h hh
      simp only [switchMessage, List.mem_cons, List.not_mem_nil, or_false] at hh
      rcases hh with rfl | rfl | rfl
      · exact ⟨by decide, by decide, by decide, by decide⟩
      · exact ⟨by decide, by decide, by decide, by decide⟩
      · refine cleanHeader_of_not_mem (show bytes "Sec-WebSocket-Accept" ≠ [] by decide) (by decide)
          (fun hin => (hplain 13 hin).1 rfl) (trimOws_eq_self ?_ ?_)
        · exact fun c hc => (hplain c (List.mem_of_head? hc)).2
        · exact fun c hc => (hplain c (List.mem_of_getLast? hc)).2
    · have hfront : bytes "HTTP/1.1 101 Switching Protocols\r\nUpgrade: websocket\r\nConnection: Upgrade\r\n"
          ++ bytes "Sec-WebSocket-Accept: "
          = (statusLine 101 (bytes "Switching Protocols")).text ++ lineEnd
            ++ headerText (bytes "Upgrade", bytes "websocket")
            ++ headerText (bytes "Connection", bytes "Upgrade")
            ++ (bytes "Sec-WebSocket-Accept" ++ [58, 32]) := by decide +kernel
      have hback : bytes "\r\n\r\n" = lineEnd ++ lineEnd := by decide
      rw [hfront, hback]
      simp only [HttpText.render, switchMessage, List.flatMap_cons, List.flatMap_nil, headerText, lineEnd,
        List.append_assoc, List.cons_append, List.nil_append, List.append_nil]

section Api

variable {env : ServeEnv η P υ} {s : EdgeHttp1Serve η} {w : ServeWorld P υ} {outCap : ℕ}

theorem oneReply_dispatchStream : OneReply (dispatchStream env s w outCap) := by
  unfold dispatchStream
  cases hrbac : requireRbac s w outCap .resWsStream with
  | some denied => exact oneReply_requireRbac hrbac
  | none =>
    dsimp only
    split_ifs
    · exact oneReply_answerMethod
    · exact oneReply_json (by decide)
    · cases hbuild : edgeWsBuild101 s.wsKey outCap with
      | none => exact oneReply_json (by decide)
      | some out => exact fun _ => oneMessage_build101 hbuild

/-! ## The state routes -/

theorem oneReply_stateGetRoute {st : StateStore} {p : StatePath} :
    OneReply (stateGetRoute s w outCap st p) := by
  unfold stateGetRoute
  by_cases hlist : p.isList
  · rw [if_pos hlist]
    split
    · exact oneReply_answerErr _
    · exact oneReply_json (by decide)
  · rw [if_neg hlist]
    split
    · exact oneReply_answerErr _
    · exact oneReply_json (by decide)

/-- A change is answered, whether the store takes it or not. -/
theorem oneReply_answerChange {p : StatePath} {op : Bytes} {value : Option Bytes}
    {r : StateStore × EdgeStateErr} : OneReply (answerChange env s w outCap p op value r) := by
  unfold answerChange
  dsimp only
  split_ifs
  · exact oneReply_json (by decide)
  · exact oneReply_answerErr _

/-- The routes of the state. -/
theorem oneReply_dispatchState {r : Served η P υ} (h : dispatchState env s w outCap = some r) :
    OneReply r := by
  cases hpath : pathIsState s.path with
  | none =>
    rw [dispatchState, hpath] at h
    cases h
  | some p =>
    have houtcome := dispatchState_outcome env w outCap hpath
    rw [h] at houtcome
    generalize hr : some r = r' at houtcome
    cases houtcome with
    | denied hrbac =>
      obtain rfl := Option.some.inj hr
      exact oneReply_requireRbac hrbac
    | unavailable =>
      obtain rfl := Option.some.inj hr
      exact oneReply_json (by decide)
    | get =>
      obtain rfl := Option.some.inj hr
      exact oneReply_stateGetRoute
    | badKey =>
      obtain rfl := Option.some.inj hr
      exact oneReply_json (by decide)
    -- Without a body there is no answer of this route.
    | put =>
      unfold statePutRoute at hr
      split at hr
      · cases hr
      split_ifs at hr
      obtain rfl := Option.some.inj hr
      exact oneReply_answerChange
    | delete =>
      obtain rfl := Option.some.inj hr
      exact oneReply_answerChange
    | method =>
      obtain rfl := Option.some.inj hr
      exact oneReply_answerMethod

/-- The stream, the state, and the routes for GET. -/
theorem oneReply_dispatchApi : OneReply (dispatchApi env s w outCap) := by
  unfold dispatchApi
  split_ifs
  · exact oneReply_dispatchStream
  · split
    next r hstate => exact oneReply_dispatchState hstate
    next => exact oneReply_dispatchGet

/-! ## The plugins -/

/-- The head that a plugin leaves: texts that stay on their lines. -/
structure CleanHead (res : EdgeHttpRes) : Prop where
  reason : ¬lineEnd <:+: res.reason
  contentType : CleanValue res.contentType

/-- The body of a reply does not change its head. -/
theorem cleanHead_setBody {res : EdgeHttpRes} {data : Bytes} {len : ℕ} (h : CleanHead res) :
    CleanHead (edgeHttpResSetBody res data len).1 := by
  obtain ⟨-, hreason, hctype⟩ := setBody_keeps res data len
  exact ⟨hreason ▸ h.reason, hctype ▸ h.contentType⟩

/-- A plugin whose callbacks leave a clean head where they find one, whatever the host answers. -/
structure KeepsHead (vt : EdgePluginVtbl υ) : Prop where
  onHttp : ∀ f, vt.onHttp = some f → ∀ req res mem, CleanHead res →
    (f req res mem).Returns fun r => CleanHead r.res
  onHttpComplete : ∀ f, vt.onHttpComplete = some f → ∀ up res mem, CleanHead res →
    (f up res mem).Returns fun r => CleanHead r.res

/-- All plugins of a table are such. -/
def KeepsHeads (vtbl : P → Option (EdgePluginVtbl υ)) : Prop := ∀ p vt, vtbl p = some vt → KeepsHead vt

/-- A dispatch leaves a clean head, whether a plugin answers, waits, or fails. -/
theorem cleanHead_dispatchHttp {vtbl : P → Option (EdgePluginVtbl υ)} (hvtbl : KeepsHeads vtbl)
    (h : EdgePluginHost P) (mem : υ) (plugin : Option P) (req : EdgeHttpReq) {res : EdgeHttpRes}
    (hres : CleanHead res) :
    CleanHead (edgePluginHostDispatchHttp vtbl h mem plugin req res).res := by
  unfold edgePluginHostDispatchHttp
  split
  next p vt hvt =>
    by_cases hkind : vt.kind ≠ .http
    · rw [if_pos hkind]
      exact hres
    rw [if_neg hkind]
    split
    · exact hres
    next onHttp hon =>
      by_cases hnested : (edgePendingFindInbound h.pending req.inboundSlot).isSome
      · rw [if_pos hnested]
        exact cleanHead_setBody ⟨show ¬lineEnd <:+: bytes "Internal Server Error" by decide, hres.contentType⟩
      rw [if_neg hnested]
      have hkeeps := ((hvtbl p vt hvt).onHttp onHttp hon req res mem hres).run apiAnswer
        (enterOnHttp h p req.inboundSlot)
      dsimp only
      unfold afterOnHttp
      dsimp only
      split_ifs
      · exact cleanHead_setBody
          ⟨show ¬lineEnd <:+: bytes "Internal Server Error" by decide, hkeeps.contentType⟩
      · exact hkeeps
      · exact hkeeps
      · exact ⟨show ¬lineEnd <:+: bytes "Internal Server Error" by decide, hkeeps.contentType⟩
      · exact hkeeps
  next => exact hres

/-- So does a completion. -/
theorem cleanHead_completeOutbound {vtbl : P → Option (EdgePluginVtbl υ)} (hvtbl : KeepsHeads vtbl)
    (h : EdgePluginHost P) (mem : υ) (upstream : EdgeHttpClientResult) {res : EdgeHttpRes}
    (hres : CleanHead res) :
    CleanHead (edgePluginHostCompleteOutbound vtbl h mem upstream res).res := by
  unfold edgePluginHostCompleteOutbound
  split_ifs
  · exact hres
  split
  · exact hres
  next i e =>
    split
    next p f _ hcomplete =>
      obtain ⟨vt, hvt, hf⟩ := Option.bind_eq_some_iff.mp hcomplete
      obtain ⟨q, -, hq⟩ := Option.bind_eq_some_iff.mp hvt
      have hkeeps := ((hvtbl q vt hq).onHttpComplete f hf upstream res mem hres).run apiAnswer
        (h.note (.completeCalled upstream.outboundId p))
      unfold callOnHttpComplete
      dsimp only
      split_ifs
      · exact cleanHead_setBody
          ⟨show ¬lineEnd <:+: bytes "Internal Server Error" by decide, hkeeps.contentType⟩
      · exact hkeeps
      · exact ⟨show ¬lineEnd <:+: bytes "Bad Gateway" by decide, hkeeps.contentType⟩
      · exact hkeeps
    next => exact cleanHead_setBody ⟨hres.reason, hres.contentType⟩

/-- So does the whole run of a plugin for a request. -/
theorem cleanHead_runPlugin (hvtbl : KeepsHeads env.vtbl) (h : EdgePluginHost P) (p : P) :
    CleanHead (runPlugin env s w h p).res := by
  have hstart : CleanHead (edgePluginHostDispatchHttp env.vtbl (hostOver w h) w.mem (some p) (pluginReq s)
      (pluginRes s)).res :=
    cleanHead_dispatchHttp hvtbl _ _ _ _ ⟨not_lineEnd_infix_nil, show CleanValue [] by decide⟩
  have hfinish : CleanHead (finishPlugin env s (edgePluginHostDispatchHttp env.vtbl (hostOver w h) w.mem
      (some p) (pluginReq s) (pluginRes s))).res := by
    unfold finishPlugin
    split_ifs
    · unfold edgePluginHostFinishPendingSync
      split
      · exact hstart
      split_ifs
      · exact hstart
      · exact cleanHead_setBody ⟨hstart.reason, hstart.contentType⟩
      · exact cleanHead_completeOutbound hvtbl _ _ _ hstart
    · exact hstart
  rw [runPlugin_eq]
  obtain ⟨status, hstatus⟩ := withStatus_res (finishPlugin env s
    (edgePluginHostDispatchHttp env.vtbl (hostOver w h) w.mem (some p) (pluginReq s) (pluginRes s)))
  rw [hstatus]
  exact ⟨hfinish.reason, hfinish.contentType⟩

/-- **What a plugin answers is sent as one message.** -/
theorem oneReply_dispatchV1 (hvtbl : KeepsHeads env.vtbl) (h : EdgePluginHost P) :
    OneReply (dispatchV1 env s w outCap h) := by
  unfold dispatchV1
  cases edgePluginHostMatch h s.path with
  | none => exact oneReply_json (by decide)
  | some p =>
    dsimp only
    generalize (if authEnforced s then s else { s with principal := labPrincipal }) = s
    split
    next denied hrbac => exact oneReply_requireRbac hrbac
    next =>
      split_ifs
      · exact oneReply_of_ret (show ¬(-1 : ℤ) = 1 by decide)
      · generalize hplugin : runPlugin env _ w h p = r
        have hclean := hplugin ▸ cleanHead_runPlugin hvtbl h p
        refine oneReply_answer ?_ ?_
        · split_ifs
          · decide
          · exact hclean.reason
        · split_ifs
          · decide
          · exact hclean.contentType

/-! ## A feed -/

/-- The state of a connection once the bytes are parsed, as a request is dispatched from it. -/
def parsedServe (env : ServeEnv η P υ) (s : EdgeHttp1Serve η) (hub : Option EdgeWsHub) (data : Bytes) :
    EdgeHttp1Serve η :=
  (feedParser env s hub data).1

/-- One message that sets no cookies, or the one cookie of a login. -/
def OneAnswer (clock : Clock) (s : EdgeHttp1Serve η) (r : Served η P υ) : Prop :=
  r.ret = 1 → OneMessage [] r.out ∨ ∃ ctx cookieVal p, LoggedIn clock s ctx cookieVal p ∧
    OneMessage [cookieText cookieVal (sessionTtl ctx)] r.out

/-- A reply without cookies is an answer. -/
theorem OneReply.answer {clock : Clock} {s : EdgeHttp1Serve η} {r : Served η P υ} (h : OneReply r) :
    OneAnswer clock s r := fun hret => .inl (h hret)

/-- **Every route answers with one message**, which sets a cookie after a login only. -/
theorem oneAnswer_dispatch (hvtbl : KeepsHeads env.vtbl) :
    OneAnswer env.clock s (dispatch env s w outCap) := by
  unfold dispatch
  split
  next r hlogin => exact oneMessage_login hlogin
  next =>
    split
    next r hme => exact (oneReply_authMe hme).answer
    next =>
      split
      next h _ => exact (oneReply_dispatchV1 hvtbl h).answer
      next => exact oneReply_dispatchApi.answer

theorem OneAnswer.finish {clock : Clock} {s : EdgeHttp1Serve η} {r : Served η P υ}
    (h : OneAnswer clock s r) : OneAnswer clock s (finishServed r) := by
  unfold finishServed
  split_ifs
  · exact h
  · exact h

/-- Waiting for the body changes nothing that a login reads. -/
theorem LoggedIn.of_waitFullBody {clock : Clock} {ctx : EdgeAuthCtx} {cookieVal : Bytes}
    {p : EdgePrincipal} (h : LoggedIn clock (waitFullBody s).1 ctx cookieVal p) :
    LoggedIn clock s ctx cookieVal p := by
  obtain ⟨hpath, hmethod, hauth, hmode, hpassword, hissued⟩ := h
  rw [locateBody_waitFullBody] at hpassword
  obtain ⟨off, hwait⟩ := waitFullBody_eq s
  rw [hwait] at hpath hmethod hauth
  exact ⟨hpath, hmethod, hauth, hmode, hpassword, hissued⟩

/-- A feed answers once the request is complete. -/
theorem oneAnswer_feedParsed (hvtbl : KeepsHeads env.vtbl) :
    OneAnswer env.clock s (feedParsed env s w outCap) := by
  unfold feedParsed
  dsimp only
  split_ifs
  · exact (oneReply_of_ret (show ¬(0 : ℤ) = 1 by decide)).answer
  · exact (oneReply_of_ret (show ¬(0 : ℤ) = 1 by decide)).answer
  · intro hret
    rcases (oneAnswer_dispatch hvtbl).finish hret with hmsg | ⟨ctx, cookieVal, p, hlogin, hmsg⟩
    · exact .inl hmsg
    · exact .inr ⟨ctx, cookieVal, p, hlogin.of_waitFullBody, hmsg⟩
  · exact (oneAnswer_dispatch hvtbl).finish

/-- **What a feed sends is one message**, whatever the parser reports. -/
theorem oneAnswer_feed (hvtbl : KeepsHeads env.vtbl) (data : Bytes) :
    OneAnswer env.clock (parsedServe env s w.hub data) (edgeHttp1ServeFeed env s w data outCap) := by
  unfold edgeHttp1ServeFeed
  dsimp only
  split_ifs
  · exact (oneReply_of_ret (show ¬(-1 : ℤ) = 1 by decide)).answer
  · exact (oneReply_of_ret (show ¬(0 : ℤ) = 1 by decide)).answer
  · exact (oneReply_text (by decide)).answer.finish
  · exact (oneReply_text (by decide)).answer.finish
  · exact oneAnswer_feedParsed hvtbl

theorem oneMessage_feed (hvtbl : KeepsHeads env.vtbl) {data : Bytes}
    (hret : (edgeHttp1ServeFeed env s w data outCap).ret = 1) :
    ∃ cookies, OneMessage cookies (edgeHttp1ServeFeed env s w data outCap).out := by
  rcases oneAnswer_feed hvtbl data hret with hmsg | ⟨ctx, cookieVal, p, -, hmsg⟩
  · exact ⟨_, hmsg⟩
  · exact ⟨_, hmsg⟩

end Api

/-- The proxy sets reasons and a type of its own. -/
theorem keepsHead_openai (now : ℤ) (alloc : Bool) : KeepsHead (openaiVtbl now alloc) where
  onHttp := by
    rintro f hf req res d hres
    obtain rfl := Option.some.inj hf
    have hrefuse : ∀ d' status text len, CleanHead (refuseWith d' res status text len).res :=
      fun d' status text len => cleanHead_setBody ⟨hres.reason, hres.contentType⟩
    have hlimited : ∀ d' status text len, CleanHead
        (refuseWith d' { res with reason := bytes "Too Many Requests" } status text len).res :=
      fun d' status text len => cleanHead_setBody
        ⟨show ¬lineEnd <:+: bytes "Too Many Requests" by decide, hres.contentType⟩
    unfold openaiOnHttp
    dsimp only
    split_ifs
    · exact hrefuse ..
    · exact hrefuse ..
    · exact hrefuse ..
    · exact hrefuse ..
    · exact hlimited ..
    · exact hrefuse ..
    · exact hrefuse ..
    · intro reply
      show CleanHead (openaiReplied res _ reply).res
      unfold openaiReplied
      split_ifs
      · exact hrefuse ..
      · exact hres
  onHttpComplete := by
    rintro f hf up res d hres
    obtain rfl := Option.some.inj hf
    have hjson : CleanValue (bytes "application/json") := by decide
    have hfilled : CleanHead (edgeHttpResSetBody
        { res with status := up.status, contentType := bytes "application/json" } up.body
        up.body.length).1 := cleanHead_setBody ⟨hres.reason, hjson⟩
    show CleanHead (openaiOnHttpComplete up res d).res
    unfold openaiOnHttpComplete
    dsimp only
    generalize (if d.inFlight > 0 then { d with inFlight := d.inFlight - 1 } else d) = d
    split_ifs
    · exact cleanHead_setBody ⟨show ¬lineEnd <:+: bytes "Gateway Timeout" by decide, hres.contentType⟩
    · exact cleanHead_setBody ⟨show ¬lineEnd <:+: bytes "Bad Gateway" by decide, hres.contentType⟩
    · exact cleanHead_setBody ⟨hfilled.reason, hfilled.contentType⟩
    · exact hfilled
    · exact cleanHead_setBody ⟨hres.reason, hjson⟩

/-- The plugin of `replying` sets no header. -/
theorem keepsHead_replying (body : Bytes) : KeepsHead (replying body) where
  onHttp := by
    rintro f hf req res d hres
    obtain rfl := Option.some.inj hf
    exact ⟨hres.reason, hres.contentType⟩
  onHttpComplete := by
    rintro f hf
    cases hf

/-- `strtoll` on what `%lld` writes, in front of a byte of another kind. -/
theorem strtoll_decimalInt_clamped (v : ℤ) {c : UInt8} (hc : ¬isdigit c) (rest : Bytes) :
    strtoll (decimalInt v ++ c :: rest) = (clampInt64 v, c :: rest) := by
  have htail : c :: rest = [] ∨ ∃ d t, c :: rest = d :: t ∧ ¬isdigit d := .inr ⟨c, rest, rfl, hc⟩
  have hdigits : ∀ n, ∀ d ∈ decimal n, isdigit d = true := fun n d hd => isdigit_of_mem_decimal hd
  cases v with
  | ofNat n =>
    refine (strtoll_digits (decimal_ne_nil n) (hdigits n) htail).1.trans ?_
    rw [digitsValue_decimal, Int.ofNat_eq_natCast]
  | negSucc n =>
    refine (strtoll_digits (decimal_ne_nil (n + 1)) (hdigits (n + 1)) htail).2.trans ?_
    rw [digitsValue_decimal, Int.negSucc_eq, ← Int.natCast_succ]

/-- What is out of range for a status stays so in an `int64_t`. -/
theorem clampInt64_range (v : ℤ) : (clampInt64 v < 100 ∨ clampInt64 v > 599) ↔ ¬(100 ≤ v ∧ v ≤ 599) := by
  unfold clampInt64
  split_ifs
  all_goals omega

/-- **The client reads a response back**: its status, when it is one, and its body. -/
theorem parseStatusAndBody_render {m : HttpText} (hclean : m.Clean) {status : ℤ} {reason : Bytes}
    (hstart : m.start = statusLine status reason) :
    parseStatusAndBody m.render = if 100 ≤ status ∧ status ≤ 599 then some (status, m.body) else none := by
  obtain ⟨tail, htail⟩ : ∃ tail, m.render = bytes "HTTP/1.1" ++ 32 :: (decimalInt status ++ 32 :: tail) := by
    refine ⟨reason ++ (lineEnd ++ (m.headers.flatMap headerText ++ (lineEnd ++ m.body))), ?_⟩
    rw [HttpText.render, hstart]
    simp only [StartLine.text, statusLine, List.append_assoc, List.cons_append]
  have hlen : ¬m.render.length < 12 := by
    rw [HttpText.render, hstart]
    simp only [StartLine.text, statusLine, List.length_append, List.length_cons,
      show (bytes "HTTP/1.1").length = 8 by decide, show lineEnd.length = 2 by decide]
    omega
  have hversion : (bytes "HTTP/1.").isPrefixOf m.render := by
    rw [htail, List.isPrefixOf_iff_prefix]
    exact (show bytes "HTTP/1." <+: bytes "HTTP/1.1" by decide).trans (List.prefix_append _ _)
  have hzero : 0 ∉ bytes "HTTP/1.1" ++ 32 :: (decimalInt status ++ [32]) := by
    simp only [List.mem_append, List.mem_cons, not_or]
    refine ⟨by decide, by decide, fun hin => ?_, by decide⟩
    rcases mem_decimalInt hin with hdigit | hminus
    · exact absurd hdigit (by decide)
    · exact absurd hminus (by decide)
  have hcstr : cstr m.render = bytes "HTTP/1.1" ++ 32 :: (decimalInt status ++ 32 :: cstr tail) := by
    have hsplit : m.render = (bytes "HTTP/1.1" ++ 32 :: (decimalInt status ++ [32])) ++ tail := by
      rw [htail]
      simp
    rw [hsplit, cstr_append hzero]
    simp
  have hspace : strchr (cstr m.render) 32 = some (32 :: (decimalInt status ++ 32 :: cstr tail)) := by
    rw [hcstr, strchr_append (by decide), strchr_cons_self]
  have hnum := @strtoll_decimalInt_clamped status 32 (by decide) (cstr tail)
  have hne : (32 : UInt8) :: cstr tail ≠ decimalInt status ++ 32 :: cstr tail := fun heq =>
    absurd (List.append_cancel_right (heq.symm.trans (List.nil_append _).symm)) (decimalInt_ne_nil status)
  have hend : strstr m.render crlf2 = some (crlf2 ++ m.body) := hclean.strstr_render
  rw [parseStatusAndBody, if_neg hlen, if_neg (by simpa using hversion), hspace]
  dsimp only
  rw [List.drop_one, List.tail_cons, hnum]
  dsimp only
  rw [hend]
  by_cases hrange : 100 ≤ status ∧ status ≤ 599
  · have hclamp : clampInt64 status = status := by
      unfold clampInt64
      rw [if_neg (by omega), if_neg (by omega)]
    rw [if_neg fun hout => hout.elim hne fun hclamped => (clampInt64_range status).mp hclamped hrange,
      if_pos hrange, hclamp]
    rfl
  · rw [if_pos (.inr ((clampInt64_range status).mpr hrange)), if_neg hrange]

/-- **An answer passes through another edgehost**: a client that has sent its request, and whose reads
give the whole answer within its buffer, takes out the status and the body that the message has; it takes
nothing when that status is none. -/
theorem answer_forwarded {env : ServeEnv η P υ} (hvtbl : KeepsHeads env.vtbl) (s : EdgeHttp1Serve η)
    (w : ServeWorld P υ) (data : Bytes) (outCap : ℕ)
    (hret : (edgeHttp1ServeFeed env s w data outCap).ret = 1) :
    ∃ (m : HttpText) (status : ℤ) (reason : Bytes),
      readMessage (edgeHttp1ServeFeed env s w data outCap).out = some (m, []) ∧
      m.start = statusLine status reason ∧
      ∀ net req opts bodyCap https es, outboundSend net req opts bodyCap = .ok (https, es) →
        (arrived https false es).1 = (edgeHttp1ServeFeed env s w data outCap).out →
        (edgeHttp1ServeFeed env s w data outCap).out.length ≤ opts.rawCap →
        ¬ReadBreaks https opts.rawCap es →
        edgeOutboundHttpExecute net req opts bodyCap
          = if 100 ≤ status ∧ status ≤ 599 then
              ({ EdgeHttpClientResult.failed 0 with status, body := m.body.take bodyCap }, 0)
            else (.failed EPROTO, -1) := by
  obtain ⟨cookies, m, hclean, hout, -, status, reason, hstart⟩ := oneMessage_feed hvtbl hret
  refine ⟨m, status, reason, ?_, hstart, ?_⟩
  · have hread := readMessage_render hclean []
    rwa [List.append_nil, ← hout] at hread
  · intro net req opts bodyCap https es hsend harrived hfits hwhole
    rw [edgeOutboundHttpExecute, hsend]
    dsimp only
    rw [readAll_eq, if_neg hwhole, harrived, List.take_of_length_le hfits]
    dsimp only
    rw [hout, parseStatusAndBody_render hclean hstart]
    split_ifs
    · rfl
    · rfl

/-- What the client of one process makes of the answer of another. -/
theorem answer_forwarded_replying :
    edgeOutboundHttpExecute
        (answering (edgeHttp1ServeFeed (replyingEnv (bytes "ok")) freshServe replyingWorld [71] 2048).out)
        waitingRequest (pendingOpts true 0) (pendingCap 0)
      = ({ EdgeHttpClientResult.failed 0 with status := 200, body := bytes "ok" }, 0) := by
  obtain ⟨m, status, reason, hread, hstart, hforward⟩ := answer_forwarded
    (show KeepsHeads (replyingEnv (bytes "ok")).vtbl from
      fun _ _ h => Option.some.inj h ▸ keepsHead_replying _) freshServe replyingWorld [71] 2048
    (by decide +kernel)
  have hout : readMessage
      (edgeHttp1ServeFeed (replyingEnv (bytes "ok")) freshServe replyingWorld [71] 2048).out
        = some (responseMessage 200 (bytes "OK") jsonType [] (bytes "ok"), []) := by
    decide +kernel
  obtain ⟨rfl, -⟩ := Prod.mk.inj (Option.some.inj (hread.symm.trans hout))
  have hstatus : clampInt64 status = 200 := by
    have hnum := congrArg (fun l : StartLine => (strtoll (l.second ++ [32])).1) hstart.symm
    unfold statusLine at hnum
    dsimp only at hnum
    rw [strtoll_decimalInt_clamped _ (by decide)] at hnum
    exact hnum.trans (congrArg Prod.fst (strtoll_decimalInt_clamped 200 (by decide) []))
  obtain rfl : status = 200 := by
    unfold clampInt64 at hstatus
    split_ifs at hstatus
    all_goals omega
  have hsend : outboundSend
      (answering (edgeHttp1ServeFeed (replyingEnv (bytes "ok")) freshServe replyingWorld [71] 2048).out)
      waitingRequest (pendingOpts true 0) (pendingCap 0) = .ok (false,
        [.data (edgeHttp1ServeFeed (replyingEnv (bytes "ok")) freshServe replyingWorld [71] 2048).out]) := by
    rfl
  exact hforward _ _ _ _ _ _ hsend (by decide +kernel) (by decide +kernel) (by decide +kernel)

end Edgehost
