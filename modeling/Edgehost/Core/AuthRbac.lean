import Edgehost.Common.JsonText
import Edgehost.Core.Sha256
import Edgehost.Core.Base64

/-!
# Principals, sessions and proxy headers (`auth_rbac.c`)

A session cookie is `P.S`: `P` encodes a JSON payload with the subject, the roles and the expiry, `S`
the MAC of the payload. The reverse proxy signs its headers with the same MAC under another key.

Strings are C strings, so a byte string here has no NUL and a NULL pointer is `none`; `none` as a
result is a return value of -1. An output pointer is the value it points at, or `none` for NULL.
-/

namespace Edgehost

/-! ## Types -/

def EDGE_AUTH_SUB_MAX : ℕ := 64

def EDGE_AUTH_COOKIE_NAME : Bytes := bytes "edge_session"

def EDGE_AUTH_COOKIE_MAX : ℕ := 768

def EDGE_AUTH_PASSWORD_MAX : ℕ := 128

/-- `edge_auth_mode_t`. -/
inductive EdgeAuthMode where
  | modeOpen
  | modeLabPassword
  | modeProxyHeaders
  deriving DecidableEq, Repr

/-- `edge_role_t`, the single roles. -/
inductive EdgeRole where
  | employee
  | employeeAdmin
  | cpe
  | customer
  | serviceOpenai
  | ingest
  deriving DecidableEq, Repr

/-- The flag of a role. -/
def EdgeRole.bit : EdgeRole → UInt32
  | employee => (1 : UInt32) <<< 0
  | employeeAdmin => (1 : UInt32) <<< 1
  | cpe => (1 : UInt32) <<< 2
  | customer => (1 : UInt32) <<< 3
  | serviceOpenai => (1 : UInt32) <<< 4
  | ingest => (1 : UInt32) <<< 5

/-- The name of a role in cookies and headers. -/
def EdgeRole.text : EdgeRole → Bytes
  | employee => bytes "employee"
  | employeeAdmin => bytes "employee_admin"
  | cpe => bytes "cpe"
  | customer => bytes "customer"
  | serviceOpenai => bytes "service_openai"
  | ingest => bytes "ingest"

/-- The roles, in the order in which `roles_to_json_array` writes them. -/
def edgeRoles : List EdgeRole := [.employee, .employeeAdmin, .cpe, .customer, .serviceOpenai, .ingest]

/-- `edge_auth_resource_t`. -/
inductive EdgeAuthResource where
  | resNone
  | resStateGet
  | resStatePut
  | resStateDelete
  | resStateList
  | resWsStream
  | resPackages
  | resOpenai
  deriving DecidableEq, Repr

/-- `edge_auth_decision_t`. -/
inductive EdgeAuthDecision where
  | allow
  | deny
  deriving DecidableEq, Repr

/-- `edge_principal_t`. -/
structure EdgePrincipal where
  authenticated : Bool
  sub : Bytes
  roles : UInt32
  exp : Int64
  deriving DecidableEq, Repr

/-- `edge_auth_ctx_t`; a key is its first `len` bytes. -/
structure EdgeAuthCtx where
  mode : EdgeAuthMode
  labPassword : Bytes
  hmacKey : Bytes
  proxyHmacKey : Bytes
  sessionTtlS : UInt32
  proxyMaxSkewS : UInt32
  nowSecOverride : Int64
  deriving DecidableEq

/-- What `time(NULL)` returns: seconds since the Epoch, which cannot fail. -/
structure Clock where
  sec : Int64
  nonneg : 0 ≤ sec

/-- `edge_auth_ctx_init`. -/
def edgeAuthCtxInit : EdgeAuthCtx where
  mode := .modeOpen
  labPassword := []
  hmacKey := []
  proxyHmacKey := []
  sessionTtlS := 28800
  proxyMaxSkewS := 300
  nowSecOverride := 0

/-- `edge_principal_clear`. -/
def edgePrincipalClear : EdgePrincipal where
  authenticated := false
  sub := []
  roles := 0
  exp := 0

/-! ## Roles and resources -/

def edgeAuthRoleHas (roles : UInt32) (role : EdgeRole) : Bool := roles &&& role.bit ≠ 0

/-- `edge_auth_role_parse`: the flag, or 0 for an unknown name. -/
def edgeAuthRoleParse (name : Bytes) : UInt32 :=
  match edgeRoles.find? (fun r => r.text = name) with
  | some r => r.bit
  | none => 0

def edgeAuthRbacCheck (p : Option EdgePrincipal) (res : EdgeAuthResource) : EdgeAuthDecision :=
  match p with
  | none => .deny
  | some p =>
    if ¬p.authenticated then .deny
    else if edgeAuthRoleHas p.roles .employee ∨ edgeAuthRoleHas p.roles .employeeAdmin then
      match res with
      | .resNone => .deny
      | _ => .allow
    else if edgeAuthRoleHas p.roles .serviceOpenai then
      if res = .resOpenai then .allow else .deny
    else if edgeAuthRoleHas p.roles .ingest then
      if res = .resStatePut then .allow else .deny
    else .deny

/-- `edge_auth_classify`: the resource that a method and a path name. -/
def edgeAuthClassify (method path : Bytes) (stateIsList : Bool) : EdgeAuthResource :=
  if path.take 14 = bytes "/api/v1/stream" ∧
      ((path.drop 14).head? = none ∨ (path.drop 14).head? = some (charByte '?')) then
    if method = bytes "GET" then .resWsStream else .resNone
  else if path.take 14 = bytes "/api/v1/state/" ∧ method = bytes "GET" then
    if stateIsList then .resStateList else .resStateGet
  else if path.take 14 = bytes "/api/v1/state/" ∧ method = bytes "PUT" then .resStatePut
  else if path.take 14 = bytes "/api/v1/state/" ∧ method = bytes "DELETE" then .resStateDelete
  else if path.take 9 = bytes "/packages" ∧
      ((path.drop 9).head? = none ∨ (path.drop 9).head? = some (charByte '/') ∨
        (path.drop 9).head? = some (charByte '?')) ∧ method = bytes "GET" then .resPackages
  else if path.take 4 = bytes "/v1/" ∨ path = bytes "/v1" then .resOpenai
  else .resNone

def edgeAuthModeEnforced (mode : EdgeAuthMode) : Bool :=
  mode = .modeLabPassword ∨ mode = .modeProxyHeaders

/-- `edge_auth_now_sec`. -/
def edgeAuthNowSec (ctx : EdgeAuthCtx) (clock : Clock) : Int64 :=
  if ctx.nowSecOverride > 0 then ctx.nowSecOverride else clock.sec

/-! ## Sessions -/

/-- `roles_to_json_array`, built in a buffer of 128 bytes and copied to one of `outSz`. -/
def rolesToJsonArray (roles : UInt32) (outSz : ℕ) : Option Bytes :=
  let tmp := charByte '[' ::
    joinNames ((edgeRoles.filter (edgeAuthRoleHas roles)).map EdgeRole.text)
  if tmp.length + 2 > 128 then none
  else if tmp.length + 1 + 1 > outSz then none
  else some (tmp ++ [charByte ']'])

/-- The flags of the roles whose quoted name occurs in `buf`. -/
def rolesNamedIn (buf : Bytes) : UInt32 :=
  edgeRoles.foldl
    (fun roles r => if (strstr buf (quoted r.text)).isSome then roles ||| r.bit else roles) 0

/-- The buffer of `parse_roles_array`, with room for 128 bytes: nothing is copied, or a text with its
NUL, or a text that fills the buffer, and whose NUL is written behind it. -/
inductive RolesBuf where
  | empty
  | copied (buf : Bytes)
  | overrun
  deriving DecidableEq

/-- What `parse_roles_array` copies to its buffer: from the first `[` to the next `]`. -/
def rolesBracket (p : Bytes) : RolesBuf :=
  match strchr p (charByte '[') with
  | none => .empty
  | some p =>
    match strchr p (charByte ']') with
    | none => .empty
    | some e =>
      if p.length - e.length ≥ 128 then .empty
      -- The check leaves no room for the NUL of a text of 128 bytes.
      else if p.length - e.length + 1 = 128 then .overrun
      else .copied (p.take (p.length - e.length + 1))

/-- `parse_roles_array`: the brackets after the first text that looks like the field's name. What it
returns after a write behind its buffer is not defined. -/
def parseRolesArray (json : Bytes) : Option UInt32 :=
  match strstr json (quoted (bytes "roles")) with
  | none => some 0
  | some p =>
    match rolesBracket p with
    | .empty => some 0
    | .copied buf => some (rolesNamedIn buf)
    | .overrun => none

/-- The loop that copies a JSON string with room for `n` bytes: what it wrote and what is left. A
backslash is dropped and the byte after it is copied. -/
def copyJsonString : ℕ → Bytes → Bytes × Bytes
  | 0, p => ([], p)
  | _ + 1, [] => ([], [])
  | n + 1, c :: p =>
    if c = quoteByte then ([], c :: p)
    else if c = charByte '\\' then
      match p with
      | [] => ([c], [])
      | d :: p =>
        let (out, rest) := copyJsonString n p
        (d :: out, rest)
    else
      let (out, rest) := copyJsonString n p
      (c :: out, rest)

/-- The value of a JSON string that starts at the first quote of `p`, in a buffer of `outSz` bytes. -/
def readJsonString (p : Bytes) (outSz : ℕ) : Option Bytes :=
  match strchr p (quoteByte) with
  | none => none
  | some p =>
    let (out, rest) := copyJsonString (outSz - 1) (p.drop 1)
    if rest.head? = some (quoteByte) then some out else none

/-- `parse_json_string_field`: the first text that looks like the field's name is taken for it. -/
def parseJsonStringField (json field : Bytes) (outSz : ℕ) : Option Bytes :=
  let key := snprintf 80 (quoted field)
  match strstr json key with
  | none => none
  | some p => readJsonString (p.drop key.length) outSz

def isBlank (c : UInt8) : Bool := c = charByte ' ' ∨ c = charByte '\t'

/-- The number after the first colon of `p`. -/
def readJsonInt64 (p : Bytes) : Option Int64 :=
  match strchr p (charByte ':') with
  | none => none
  | some p =>
    let p := (p.drop 1).dropWhile isBlank
    let (v, e) := strtoll p
    if e = p then none else some (Int64.ofInt v)

/-- `parse_json_int64_field`. -/
def parseJsonInt64Field (json field : Bytes) : Option Int64 :=
  let key := snprintf 80 (quoted field)
  match strstr json key with
  | none => none
  | some p => readJsonInt64 (p.drop key.length)

/-- The JSON that `edge_auth_session_issue` signs. -/
def sessionPayload (sub rolesJson : Bytes) (exp : Int64) : Bytes :=
  bytes "\x7b\"sub\":" ++ quoted sub ++ bytes ",\"roles\":" ++ rolesJson ++ bytes ",\"exp\":" ++
    decimalInt exp.toInt ++ bytes "\x7d"

/-- The subject of a cookie: `lab` without a `sub`. -/
def subOrLab : Option Bytes → Bytes
  | none | some [] => bytes "lab"
  | some sub => sub

/-- The lifetime of a cookie. -/
def sessionTtl (ctx : EdgeAuthCtx) : UInt32 :=
  if ctx.sessionTtlS ≠ 0 then ctx.sessionTtlS else 28800

/-- When a cookie issued now expires. -/
def sessionExp (ctx : EdgeAuthCtx) (clock : Clock) : Int64 :=
  edgeAuthNowSec ctx clock + Int64.ofNat (sessionTtl ctx).toNat

/-- `edge_auth_session_issue`: the cookie value and the principal. -/
def edgeAuthSessionIssue (ctx : Option EdgeAuthCtx) (clock : Clock) (sub : Option Bytes)
    (roles : UInt32) (cookieValSz : ℕ) : Option (Bytes × EdgePrincipal) := do
  let ctx ← ctx
  guard (¬(cookieValSz < 16 ∨ ctx.hmacKey.length = 0))
  let sub := subOrLab sub
  let rolesJson ← rolesToJsonArray roles 128
  let exp := sessionExp ctx clock
  let payload := sessionPayload sub rolesJson exp
  guard (¬payload.length ≥ 256)
  let payB64 ← b64Encode payload 400 true
  let sigB64 ← b64Encode (hmacSha256 ctx.hmacKey payload) 64 true
  let cookieVal := payB64 ++ charByte '.' :: sigB64
  guard (¬cookieVal.length ≥ cookieValSz)
  some (cookieVal,
    { authenticated := true, sub := snprintf EDGE_AUTH_SUB_MAX sub, roles, exp })

/-- `ct_eq`: equality of `n` bytes, without an early exit. -/
def ctEq (a b : Bytes) (n : ℕ) : Bool :=
  (List.range n).foldl (fun d i => d ||| (a.getD i 0 ^^^ b.getD i 0)) 0 = 0

/-- The part of `edge_auth_session_verify` after the signature check: `none` when it refuses, and a
principal that is not defined when the roles overrun their buffer. -/
def sessionRead (now : Int64) (json : Bytes) : Option (Option EdgePrincipal) := do
  let sub ← parseJsonStringField json (bytes "sub") EDGE_AUTH_SUB_MAX
  let exp ← parseJsonInt64Field json (bytes "exp")
  guard (¬(exp > 0 ∧ now ≥ exp))
  some ((parseRolesArray json).map fun roles =>
    { authenticated := true, sub := snprintf EDGE_AUTH_SUB_MAX sub, roles, exp })

/-- The checks of `edge_auth_session_verify` on a cookie, and the principal it fills. -/
def sessionCheck (ctx : EdgeAuthCtx) (now : Int64) (cookieVal : Bytes) :
    Option (Option EdgePrincipal) := do
  guard (¬ctx.hmacKey.length = 0)
  let dot ← strchr cookieVal (charByte '.')
  let payB64 := cookieVal.take (cookieVal.length - dot.length)
  let sigB64 := dot.drop 1
  guard (¬(payB64 = [] ∨ sigB64 = []))
  guard (¬payB64.length ≥ 400)
  guard (¬sigB64.length ≥ 64)
  let payload ← b64Decode payB64 320
  guard (¬(payload.length = 0 ∨ payload.length ≥ 320))
  let sig ← b64Decode sigB64 32
  guard (¬sig.length ≠ 32)
  guard (ctEq (hmacSha256 ctx.hmacKey payload) sig 32)
  sessionRead now (cstr payload)

/-- `edge_auth_session_verify`: the status and what `out` points at afterwards, if that is defined. -/
def edgeAuthSessionVerify (ctx : Option EdgeAuthCtx) (clock : Clock) (cookieVal : Option Bytes)
    (out : Option EdgePrincipal) : Option (ℤ × Option EdgePrincipal) :=
  let out := out.map fun _ => edgePrincipalClear
  match ctx, cookieVal, out with
  | some ctx, some cookieVal, some _ =>
    match sessionCheck ctx (edgeAuthNowSec ctx clock) cookieVal with
    | some p => p.map fun p => (0, some p)
    | none => some (-1, out)
  | _, _, _ => some (-1, out)

/-! ## Cookies and passwords -/

/-- What `edge_auth_cookie_extract` skips before a name. -/
def isCookieSpace (c : UInt8) : Bool := c = charByte ' ' ∨ c = charByte ';'

/-- The cookie loop moves on: it skips a separator, or the first byte of a cookie. -/
theorem length_nextCookie_lt {p : Bytes} (hp : p ≠ []) :
    ((p.dropWhile isCookieSpace).dropWhile (· ≠ charByte ';')).length < p.length := by
  obtain ⟨c, p, rfl⟩ := List.exists_cons_of_ne_nil hp
  rw [List.length_cons, Nat.lt_succ_iff]
  by_cases hc : isCookieSpace c
  · rw [List.dropWhile_cons_of_pos hc]
    exact (List.dropWhile_suffix _).length_le.trans (List.dropWhile_suffix _).length_le
  · have hne : c ≠ charByte ';' := by
      rintro rfl
      exact hc rfl
    rw [List.dropWhile_cons_of_neg hc, List.dropWhile_cons_of_pos (by simpa using hne)]
    exact (List.dropWhile_suffix _).length_le

/-- The loop of `edge_auth_cookie_extract`. -/
def cookieExtractLoop (p : Bytes) (outSz : ℕ) : Option Bytes :=
  if _hp : p = [] then none
  else
    let q := p.dropWhile isCookieSpace
    let nlen := EDGE_AUTH_COOKIE_NAME.length
    if q.take nlen = EDGE_AUTH_COOKIE_NAME ∧ (q.drop nlen).head? = some (charByte '=') then
      let out := ((q.drop (nlen + 1)).takeWhile (· ≠ charByte ';')).take (outSz - 1)
      if out.length > 0 then some out else none
    else cookieExtractLoop (q.dropWhile (· ≠ charByte ';')) outSz
termination_by p.length
decreasing_by exact length_nextCookie_lt ‹_›

/-- `edge_auth_cookie_extract`. -/
def edgeAuthCookieExtract (cookieHdr : Bytes) (outSz : ℕ) : Option Bytes :=
  if outSz = 0 then none else cookieExtractLoop cookieHdr outSz

/-- `edge_auth_password_ok`. -/
def edgeAuthPasswordOk (ctx : EdgeAuthCtx) (password : Bytes) : Bool :=
  let expect := ctx.labPassword
  if expect.length = 0 then false
  else
    let n := min (max expect.length password.length) EDGE_AUTH_PASSWORD_MAX
    let d := (List.range n).foldl (fun d i => d ||| (password.getD i 0 ^^^ expect.getD i 0)) 0
    d ||| UInt8.ofNat (expect.length ^^^ password.length) = 0

/-- `edge_auth_parse_login_password`; the key with its quotes has ten characters. -/
def edgeAuthParseLoginPassword (body : Bytes) (outSz : ℕ) : Option Bytes :=
  if outSz = 0 ∨ body.length = 0 ∨ body.length ≥ 512 then none
  else
    match strstr (cstr body) (quoted (bytes "password")) with
    | none => none
    | some p => readJsonString (p.drop 10) outSz

/-! ## Proxy headers -/

/-- What separates the tokens of a roles header. -/
def isCsvSep (c : UInt8) : Bool := c = charByte ',' ∨ c = charByte ' ' ∨ c = charByte '\t'

/-- The token at the start of `p`, cut after 63 bytes. -/
def csvToken (p : Bytes) : Bytes := (p.takeWhile (¬isCsvSep ·)).take 63

/-- The token loop moves on: after the separators it takes at least one byte. -/
theorem length_nextToken_lt {p : Bytes} (hp : p.dropWhile isCsvSep ≠ []) :
    (((p.dropWhile isCsvSep).drop (csvToken (p.dropWhile isCsvSep)).length).dropWhile
      (· ≠ charByte ',')).length < p.length := by
  have hskip : (p.dropWhile isCsvSep).length ≤ p.length := (List.dropWhile_suffix _).length_le
  have hhead := List.head_dropWhile_not isCsvSep hp
  obtain ⟨c, q, hq⟩ := List.exists_cons_of_ne_nil hp
  simp only [hq, List.head_cons] at hhead
  have htok : 1 ≤ (csvToken (c :: q)).length := by
    simp [csvToken, hhead]
  calc _ ≤ ((c :: q).drop (csvToken (c :: q)).length).length := by
        rw [hq]
        exact (List.dropWhile_suffix _).length_le
    _ < (c :: q).length := by
        rw [List.length_drop, List.length_cons]
        omega
    _ ≤ p.length := hq ▸ hskip

/-- The loop of `edge_auth_roles_from_csv`. -/
def rolesFromCsvLoop (p : Bytes) (roles : UInt32) : UInt32 :=
  let q := p.dropWhile isCsvSep
  if _hq : q = [] then roles
  else
    let tok := csvToken q
    rolesFromCsvLoop ((q.drop tok.length).dropWhile (· ≠ charByte ','))
      (roles ||| edgeAuthRoleParse tok)
termination_by p.length
decreasing_by exact length_nextToken_lt ‹_›

/-- `edge_auth_roles_from_csv`; an empty header and one without a known role mean an employee. -/
def edgeAuthRolesFromCsv (csv : Option Bytes) : UInt32 :=
  match csv with
  | none | some [] => EdgeRole.employee.bit
  | some csv =>
    let roles := rolesFromCsvLoop csv 0
    if roles ≠ 0 then roles else EdgeRole.employee.bit

/-- `edge_auth_proxy_canonical`; the status is the length of the text. -/
def edgeAuthProxyCanonical (user rolesCsv ts : Option Bytes) (outSz : ℕ) : Option Bytes := do
  let user ← user
  let ts ← ts
  guard (¬(user = [] ∨ ts = [] ∨ outSz < 8))
  let rolesCsv := match rolesCsv with
    | none | some [] => bytes "employee"
    | some rolesCsv => rolesCsv
  let text := bytes "v1\n" ++ ts ++ bytes "\n" ++ user ++ bytes "\n" ++ rolesCsv
  guard (¬text.length ≥ outSz)
  some text

/-- `edge_auth_proxy_sign`: the signature. -/
def edgeAuthProxySign (ctx : EdgeAuthCtx) (user rolesCsv : Option Bytes) (ts : Int64)
    (sigOutSz : ℕ) : Option Bytes := do
  guard (¬ctx.proxyHmacKey.length = 0)
  let canon ← edgeAuthProxyCanonical user rolesCsv (some (snprintf 32 (decimalInt ts.toInt))) 256
  b64Encode (hmacSha256 ctx.proxyHmacKey canon) sigOutSz true

/-- The control characters that would break the canonical string. -/
def hasControl (s : Bytes) : Bool := s.any fun c => c < 0x20 ∨ c = charByte '\n' ∨ c = charByte '\r'

/-- The checks of `edge_auth_proxy_verify` on the headers, and the principal it fills. -/
def proxyCheck (ctx : EdgeAuthCtx) (now : Int64) (user : Bytes) (rolesHdr : Option Bytes)
    (tsHdr sigHdr : Bytes) : Option EdgePrincipal := do
  guard (¬user = [])
  guard (¬ctx.proxyHmacKey.length = 0)
  guard (¬user.length ≥ EDGE_AUTH_SUB_MAX)
  guard (¬hasControl user)
  let rolesUse := match rolesHdr with
    | none | some [] => bytes "employee"
    | some rolesHdr => rolesHdr
  guard (¬hasControl rolesUse)
  let (v, e) := strtoll tsHdr
  let ts := Int64.ofInt v
  guard (¬(e = tsHdr ∨ e ≠ [] ∨ ts ≤ 0))
  let maxSkew : UInt32 := if ctx.proxyMaxSkewS ≠ 0 then ctx.proxyMaxSkewS else 300
  let skew := if now > ts then now - ts else ts - now
  guard (¬skew > Int64.ofNat maxSkew.toNat)
  let canon ← edgeAuthProxyCanonical (some user) (some rolesUse) (some tsHdr) 256
  let sig ← b64Decode sigHdr 32
  guard (¬sig.length ≠ 32)
  guard (ctEq (hmacSha256 ctx.proxyHmacKey canon) sig 32)
  some { authenticated := true, sub := snprintf EDGE_AUTH_SUB_MAX user,
         roles := edgeAuthRolesFromCsv (some rolesUse), exp := ts + Int64.ofNat maxSkew.toNat }

/-- `edge_auth_proxy_verify`: the status and what `out` points at afterwards. -/
def edgeAuthProxyVerify (ctx : Option EdgeAuthCtx) (clock : Clock)
    (user rolesHdr tsHdr sigHdr : Option Bytes) (out : Option EdgePrincipal) :
    ℤ × Option EdgePrincipal :=
  let out := out.map fun _ => edgePrincipalClear
  match ctx, user, tsHdr, sigHdr, out with
  | some ctx, some user, some tsHdr, some sigHdr, some _ =>
    match proxyCheck ctx (edgeAuthNowSec ctx clock) user rolesHdr tsHdr sigHdr with
    | some p => (0, some p)
    | none => (-1, out)
  | _, _, _, _, _ => (-1, out)

end Edgehost
