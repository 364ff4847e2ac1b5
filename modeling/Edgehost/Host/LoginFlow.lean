import Edgehost.Core.AuthPassword
import Edgehost.Core.AuthVerify
import Edgehost.Core.CookieHeader
import Edgehost.Host.Mediation
import Edgehost.Host.ResponseWire

/-!
# A login and the requests after it

A client keeps of the cookie of an answer what stands before its attributes, and sends it back among its
other cookies.

* `setCookie_password` — only a login with the configured password is answered with a cookie.
* `login_followed`     — a request that sends the cookie is the session's until it expires, and from then
  on it is nobody's.
-/

namespace Edgehost

variable {η P υ : Type*}

/-! ## The session among the cookies of a request -/

/-- The loop passes over a cookie of another name, whatever its length. -/
theorem cookieExtractLoop_other {sep : Bytes} (hsep : ∀ b ∈ sep, isCookieSpace b = true) {c : Cookie}
    (hname : c.name ≠ EDGE_AUTH_COOKIE_NAME) (cs : List Cookie) (outSz : ℕ) :
    cookieExtractLoop (sep ++ (c.text ++ cookieTail cs)) outSz = cookieExtractLoop (cookieTail cs) outSz := by
  have hne : sep ++ (c.text ++ cookieTail cs) ≠ [] := by
    simp [Cookie.text]
  have hskip : (sep ++ (c.text ++ cookieTail cs)).dropWhile isCookieSpace = c.text ++ cookieTail cs := by
    rw [List.dropWhile_append_of_pos hsep, dropWhile_isCookieSpace_text]
  rw [cookieExtractLoop, dif_neg hne]
  simp only [hskip, take_text_iff, dropWhile_text]
  exact if_neg hname

/-- **The session of a header** is the first cookie of its name, wherever it stands. -/
theorem cookieExtract_session {pre : List Cookie} {c : Cookie} {outSz : ℕ}
    (hpre : ∀ d ∈ pre, d.name ≠ EDGE_AUTH_COOKIE_NAME) (hname : c.name = EDGE_AUTH_COOKIE_NAME)
    (hne : c.value ≠ []) (hfits : c.value.length < outSz) (post : List Cookie) :
    edgeAuthCookieExtract (cookieHeader (pre ++ c :: post)) outSz = some c.value := by
  have hblank : ∀ b ∈ bytes "; ", isCookieSpace b = true := by decide +kernel
  have hloop : ∀ sep, (∀ b ∈ sep, isCookieSpace b = true) → ∀ d ds, d :: ds = pre ++ c :: post →
      cookieExtractLoop (sep ++ (d.text ++ cookieTail ds)) outSz = some c.value := by
    induction pre with
    | nil =>
      rintro sep hsep d ds heq
      obtain ⟨rfl, rfl⟩ := List.cons.inj heq
      rw [cookieExtractLoop_text hsep d ds outSz hfits, if_pos hname, if_pos hne]
    | cons e pre ih =>
      rintro sep hsep d ds heq
      obtain ⟨rfl, htail⟩ := List.cons.inj heq
      rw [cookieExtractLoop_other hsep (hpre d (List.mem_cons_self ..)), htail]
      cases hrest : pre ++ c :: post with
      | nil => exact absurd hrest (by simp)
      | cons d' ds' =>
        have htail' : pre.append (c :: post) = d' :: ds' := hrest
        rw [htail', cookieTail, List.flatMap_cons, List.append_assoc]
        exact ih (fun d hd => hpre d (List.mem_cons_of_mem _ hd)) _ hblank d' ds' hrest.symm
  rw [edgeAuthCookieExtract, if_neg (by omega)]
  cases hall : pre ++ c :: post with
  | nil => exact absurd hall (by simp)
  | cons d ds =>
    rw [cookieHeader_cons]
    exact hloop [] (fun b hb => absurd hb List.not_mem_nil) d ds hall.symm

/-! ## The cookie of a login -/

section Login

variable {env : ServeEnv η P υ} {s : EdgeHttp1Serve η} {w : ServeWorld P υ} {data : Bytes} {outCap : ℕ}
  {m : HttpText} {cookie : Bytes}

/-- An answer with a cookie is that of a login. -/
theorem loggedIn_of_setCookie (hvtbl : KeepsHeads env.vtbl)
    (hret : (edgeHttp1ServeFeed env s w data outCap).ret = 1)
    (hread : readMessage (edgeHttp1ServeFeed env s w data outCap).out = some (m, []))
    (hcookie : cookie ∈ setCookies m) :
    ∃ ctx cookieVal p, LoggedIn env.clock (parsedServe env s w.hub data) ctx cookieVal p ∧
      cookie = cookieText cookieVal (sessionTtl ctx) := by
  have hmessage : ∀ {cookies}, OneMessage cookies (edgeHttp1ServeFeed env s w data outCap).out →
      setCookies m = cookies := by
    rintro cookies ⟨m', hclean, hout, hset, -⟩
    have hread' := readMessage_render hclean []
    rw [List.append_nil, ← hout, hread] at hread'
    obtain ⟨rfl, -⟩ := Prod.mk.inj (Option.some.inj hread')
    exact hset
  rcases oneAnswer_feed hvtbl data hret with hmsg | ⟨ctx, cookieVal, p, hlogin, hmsg⟩
  · rw [hmessage hmsg] at hcookie
    exact absurd hcookie List.not_mem_nil
  · rw [hmessage hmsg, List.mem_singleton] at hcookie
    exact ⟨ctx, cookieVal, p, hlogin, hcookie⟩

theorem parsedServe_auth (hub : Option EdgeWsHub) : (parsedServe env s hub data).auth = s.auth :=
  (feedParser_keeps env s hub data).1

/-- A password that was read from a login has the length of the configured one when the comparison
accepts it. -/
theorem password_of_ok {ctx : EdgeAuthCtx} {body password : Bytes}
    (hmax : ctx.labPassword.length < EDGE_AUTH_PASSWORD_MAX)
    (hparse : edgeAuthParseLoginPassword body EDGE_AUTH_PASSWORD_MAX = some password)
    (hok : edgeAuthPasswordOk ctx password) : ctx.labPassword ≠ [] ∧ password = ctx.labPassword := by
  have hne : ctx.labPassword ≠ [] := by
    intro hnil
    rw [edgeAuthPasswordOk, hnil] at hok
    exact Bool.false_ne_true hok
  have hshort : password.length < EDGE_AUTH_PASSWORD_MAX := by
    unfold edgeAuthParseLoginPassword at hparse
    obtain ⟨-, hparse⟩ := Option.ite_none_left_eq_some.mp hparse
    split at hparse
    · cases hparse
    · exact length_readJsonString_lt (by decide) hparse
  rw [EDGE_AUTH_PASSWORD_MAX] at hmax hshort
  -- Both lengths are below 256, where they are compared exactly.
  have hlen : password.length = ctx.labPassword.length := by
    have hmod := ((passwordOk_iff hne password).mp hok).2
    omega
  exact ⟨hne, (passwordOk_sameLength hne (by omega) hlen).mp hok⟩

/-- **Only the password buys a cookie**: an answer that sets one is the answer to a login, and the body
of the request gives exactly the configured password, which is not empty. -/
theorem setCookie_password (hvtbl : KeepsHeads env.vtbl)
    (hauth : ∀ ctx, s.auth = some ctx → ctx.labPassword.length < EDGE_AUTH_PASSWORD_MAX)
    (hret : (edgeHttp1ServeFeed env s w data outCap).ret = 1)
    (hread : readMessage (edgeHttp1ServeFeed env s w data outCap).out = some (m, []))
    (hcookie : cookie ∈ setCookies m) :
    ∃ ctx, s.auth = some ctx ∧ ctx.mode = .modeLabPassword ∧
      pathIsLabLogin (parsedServe env s w.hub data).path ∧
      (parsedServe env s w.hub data).method = bytes "POST" ∧ ctx.labPassword ≠ [] ∧
      edgeAuthParseLoginPassword (bodyBytes (locateBody (parsedServe env s w.hub data)))
        EDGE_AUTH_PASSWORD_MAX = some ctx.labPassword := by
  obtain ⟨ctx, cookieVal, p, hlogin, -⟩ := loggedIn_of_setCookie hvtbl hret hread hcookie
  have hctx : s.auth = some ctx := (parsedServe_auth w.hub).symm.trans hlogin.auth
  obtain ⟨password, hparse, hok⟩ := hlogin.password
  obtain ⟨hne, rfl⟩ := password_of_ok (hauth ctx hctx) hparse hok
  exact ⟨ctx, hctx, hlogin.mode, hlogin.path, hlogin.method, hne, hparse⟩

/-! ## The requests after it -/

/-- The principal of a lab session that ends at `exp`. -/
def labEmployee (exp : Int64) : EdgePrincipal where
  authenticated := true
  sub := bytes "lab"
  roles := EdgeRole.employee.bit
  exp := exp

/-- A cookie as it is sent back: its name and its value, without the attributes. -/
def kept (cookie : Bytes) : Bytes := cookie.takeWhile (· ≠ charByte ';')

theorem kept_cookieText {cookieVal : Bytes} (hval : charByte ';' ∉ cookieVal) (ttl : UInt32) :
    kept (cookieText cookieVal ttl) = EDGE_AUTH_COOKIE_NAME ++ charByte '=' :: cookieVal := by
  have hfront : charByte ';' ∉ EDGE_AUTH_COOKIE_NAME ++ charByte '=' :: cookieVal := by
    rw [List.mem_append, List.mem_cons, not_or, not_or]
    exact ⟨by decide, by decide, hval⟩
  have hattrs : bytes "; HttpOnly; Path=/; SameSite=Lax; Max-Age="
      = charByte ';' :: bytes " HttpOnly; Path=/; SameSite=Lax; Max-Age=" := by decide +kernel
  have hsplit : cookieText cookieVal ttl = (EDGE_AUTH_COOKIE_NAME ++ charByte '=' :: cookieVal)
      ++ charByte ';' :: (bytes " HttpOnly; Path=/; SameSite=Lax; Max-Age=" ++ decimal ttl.toNat) := by
    rw [cookieText, hattrs, show bytes "=" = [charByte '='] by decide]
    simp only [List.append_assoc, List.cons_append, List.nil_append]
  rw [kept, hsplit]
  exact takeWhile_ne_append hfront (.inr ⟨_, rfl⟩)

/-- In the lab mode the headers name the principal that the session cookie verifies to. -/
theorem headerPrincipal_cookie {ctx : EdgeAuthCtx} {h1 : η} {cookieVal : Bytes} {ret : ℤ}
    {p : EdgePrincipal} (hmode : ctx.mode = .modeLabPassword)
    (hcookie : (env.parser.getHeader h1 (bytes "Cookie") 768).bind
      (edgeAuthCookieExtract · EDGE_AUTH_COOKIE_MAX) = some cookieVal)
    (hverify : edgeAuthSessionVerify (some ctx) env.clock (some cookieVal) (some edgePrincipalClear)
      = some (ret, some p)) :
    headerPrincipal env (some ctx) h1 = p := by
  simp only [headerPrincipal, hmode, hcookie, hverify, Option.getD_some]

/-- **The session of a login.** A client sends the cookie back among others, of which none before it has
its name. Until the expiry that was fixed at the login the request is the lab's, with the role of an
employee; from then on its headers name nobody. -/
theorem login_followed (hvtbl : KeepsHeads env.vtbl)
    (hret : (edgeHttp1ServeFeed env s w data outCap).ret = 1)
    (hread : readMessage (edgeHttp1ServeFeed env s w data outCap).out = some (m, []))
    (hcookie : cookie ∈ setCookies m) :
    ∃ (ctx : EdgeAuthCtx) (c : Cookie), s.auth = some ctx ∧ c.name = EDGE_AUTH_COOKIE_NAME ∧
      c.text = kept cookie ∧
      ∀ (env' : ServeEnv η P υ) (h1 : η) (pre post : List Cookie),
        (∀ d ∈ pre, d.name ≠ EDGE_AUTH_COOKIE_NAME) →
        env'.parser.getHeader h1 (bytes "Cookie") 768 = some (cookieHeader (pre ++ c :: post)) →
        (sessionExp ctx env.clock > 0 ∧ edgeAuthNowSec ctx env'.clock ≥ sessionExp ctx env.clock →
          headerPrincipal env' s.auth h1 = edgePrincipalClear) ∧
        (¬(sessionExp ctx env.clock > 0 ∧ edgeAuthNowSec ctx env'.clock ≥ sessionExp ctx env.clock) →
          ∀ (s' : EdgeHttp1Serve η) (hub : Option EdgeWsHub), s'.auth = s.auth →
            (onHeaders env' s' hub h1).1.principal = labEmployee (sessionExp ctx env.clock)) := by
  obtain ⟨ctx, cookieVal, p, hlogin, rfl⟩ := loggedIn_of_setCookie hvtbl hret hread hcookie
  have hctx : s.auth = some ctx := (parsedServe_auth w.hub).symm.trans hlogin.auth
  have htoken := isTokenByte_of_issued hlogin.issued
  have hsemi : charByte ';' ∉ cookieVal := fun hin => absurd (htoken _ hin) (by decide)
  have hplain : PlainSub (bytes "lab") := ⟨by decide, by decide, by decide⟩
  have hp : p = labEmployee (sessionExp ctx env.clock) := principal_of_issued hlogin.issued
  obtain ⟨hne, hfits⟩ : cookieVal ≠ [] ∧ cookieVal.length < EDGE_AUTH_COOKIE_MAX := by
    have hissued := hlogin.issued
    rw [edgeAuthSessionIssue_eq] at hissued
    obtain ⟨hroom, hissued⟩ := Option.ite_none_left_eq_some.mp hissued
    obtain ⟨rfl, -⟩ := Prod.mk.inj (Option.some.inj hissued)
    simp only [not_or, not_le, ge_iff_le] at hroom
    exact ⟨by simp [sealedCookie], hroom.2.2⟩
  let c : Cookie := ⟨EDGE_AUTH_COOKIE_NAME, cookieVal, by decide, by decide, by decide, hsemi⟩
  refine ⟨ctx, c, hctx, rfl, (kept_cookieText hsemi _).symm, fun env' h1 pre post hpre hheader => ?_⟩
  have hextract := cookieExtract_session hpre (show c.name = EDGE_AUTH_COOKIE_NAME from rfl) hne hfits post
  have hverify := edgeAuthSessionVerify_plain hplain (by decide) hlogin.issued rfl env'.clock
    edgePrincipalClear
  rw [hp] at hverify
  have hbind : (env'.parser.getHeader h1 (bytes "Cookie") 768).bind
      (edgeAuthCookieExtract · EDGE_AUTH_COOKIE_MAX) = some cookieVal := by
    rw [hheader, Option.bind_some, hextract]
  rw [hctx]
  refine ⟨fun hexpired => ?_, fun hlive s' hub hauth => ?_⟩
  · exact headerPrincipal_cookie hlogin.mode hbind (hverify.trans (if_pos (.inr hexpired)))
  · have hlab : headerPrincipal env' (some ctx) h1 = labEmployee (sessionExp ctx env.clock) :=
      headerPrincipal_cookie hlogin.mode hbind
        (hverify.trans (if_neg (not_or.mpr ⟨by decide, hlive⟩)))
    have hrequest : (onHeaders env' s' hub h1).1.principal
        = requestPrincipal env' s'.auth s'.serviceApiKey h1 := by
      obtain ⟨off, hoff⟩ := markBodyOff_eq { s' with headersDone := true }
      unfold onHeaders
      rw [hoff]
    rw [hrequest, hauth, requestPrincipal, hlab]
    split
    · exact if_neg fun h => absurd h.1 (show ¬(!true) = true by decide)
    · rfl

end Login

/-! ## A lab -/

/-- A parser that finds a login with a body of 21 bytes in whatever comes. -/
def labParser : Http1Parser Unit where
  feedInput _ _ := ([(.requestLine (bytes "POST") (bytes "/auth/lab-login"), ()), (.headersComplete, ())], ())
  getHeader _ name _ := if name = bytes "Content-Length" then some (bytes "21") else none
  isWebsocketUpgrade _ := false

/-- A parser that finds a cookie header. -/
def cookieParser (header : Bytes) : Http1Parser Unit where
  feedInput _ _ := ([], ())
  getHeader _ name _ := if name = bytes "Cookie" then some header else none
  isWebsocketUpgrade _ := false

def labEnv (parser : Http1Parser Unit) : ServeEnv Unit Unit Unit := { replyingEnv [] with parser }

def labServe : EdgeHttp1Serve Unit := { freshServe with auth := some labCtx }

/-- A login with the password of the lab. -/
def labLogin : Served Unit Unit Unit :=
  edgeHttp1ServeFeed (labEnv labParser) labServe replyingWorld
    (crlf2 ++ bytes "\x7b\"password\":\"s3cret\"\x7d") 2048

theorem keepsHeads_labEnv (parser : Http1Parser Unit) : KeepsHeads (labEnv parser).vtbl :=
  fun _ _ h => Option.some.inj h ▸ keepsHead_replying _

/-- It is answered with one cookie. -/
theorem labLogin_cookie : labLogin.ret = 1 ∧ ∃ m cookie, readMessage labLogin.out = some (m, []) ∧
    cookie ∈ setCookies m := by
  have hset : labLogin.ret = 1 ∧
      (readMessage labLogin.out).map (fun r => ((setCookies r.1).length, r.2)) = some (1, []) := by
    decide +kernel
  obtain ⟨hret, hset⟩ := hset
  obtain ⟨⟨m, rest⟩, hread, hcount⟩ := Option.map_eq_some_iff.mp hset
  obtain ⟨hlen, rfl⟩ := Prod.mk.inj hcount
  obtain ⟨cookie, hcookie⟩ := List.length_eq_one_iff.mp hlen
  exact ⟨hret, m, cookie, hread, hcookie ▸ List.mem_singleton_self cookie⟩

theorem setCookie_password_lab : edgeAuthParseLoginPassword
    (bodyBytes (locateBody (parsedServe (labEnv labParser) labServe none
      (crlf2 ++ bytes "\x7b\"password\":\"s3cret\"\x7d")))) EDGE_AUTH_PASSWORD_MAX
      = some labCtx.labPassword := by
  obtain ⟨hret, m, cookie, hread, hcookie⟩ := labLogin_cookie
  have hmax : ∀ ctx, labServe.auth = some ctx → ctx.labPassword.length < EDGE_AUTH_PASSWORD_MAX :=
    fun ctx h => Option.some.inj h ▸ by decide
  obtain ⟨ctx, hctx, -, -, -, -, hparse⟩ :=
    setCookie_password (keepsHeads_labEnv labParser) hmax hret hread hcookie
  obtain rfl := Option.some.inj hctx
  exact hparse

/-- The cookie names the lab in the next request. -/
theorem login_followed_lab : ∃ header,
    (onHeaders (labEnv (cookieParser header)) labServe none ()).1.principal
      = labEmployee (sessionExp labCtx epoch) := by
  obtain ⟨hret, m, cookie, hread, hcookie⟩ := labLogin_cookie
  obtain ⟨ctx, c, hctx, hname, htext, hfollows⟩ :=
    login_followed (keepsHeads_labEnv labParser) hret hread hcookie
  obtain rfl := Option.some.inj hctx
  have hheader : (labEnv (cookieParser c.text)).parser.getHeader () (bytes "Cookie") 768
      = some (cookieHeader ([] ++ c :: [])) := by
    rw [List.nil_append, cookieHeader_cons, cookieTail, List.flatMap_nil, List.append_nil]
    exact show (if bytes "Cookie" = bytes "Cookie" then some c.text else none) = some c.text from if_pos rfl
  have hlive : ¬(sessionExp labCtx epoch > 0 ∧ edgeAuthNowSec labCtx epoch ≥ sessionExp labCtx epoch) := by
    decide
  exact ⟨c.text, (hfollows _ () [] [] (fun _ hd => absurd hd List.not_mem_nil) hheader).2 hlive labServe
    none rfl⟩

end Edgehost
