import Edgehost.Core.AuthSession

/-!
# Issued cookies at the verifier

What `edgeAuthSessionVerify` makes of a cookie from `edgeAuthSessionIssue` under the same key, at any
clock. The subject is in front of the other fields and is not escaped, so it can be taken for them:

* `sessionRoundTrip_iff`: a subject of plain characters comes back, with its roles and expiry, unless it
  is `exp` or the expiry overflows.
* `noRolesRaised_iff`: the roles stay within the given mask unless the subject brings a roles array
  of its own, in text that the other searches also accept; such an array may also overrun the buffer.
-/

namespace Edgehost

/-- The payload has no NUL when the subject has none. -/
theorem not_mem_sessionPayload {sub : Bytes} (hsub : 0 ∉ sub) (roles : UInt32) (exp : Int64) :
    0 ∉ sessionPayload sub (rolesJson roles) exp := by
  have hnames : 0 ∉ joinNames (roleNames roles) :=
    not_mem_rolesJson (by decide) (by decide) (fun r => r.text_chars.2.2.2) roles
  have hroles : 0 ∉ rolesJson roles := by
    simp only [rolesJson, List.mem_cons, List.mem_append, not_or]
    exact ⟨by decide, hnames, by decide, List.not_mem_nil⟩
  have hexp : 0 ∉ decimalInt exp.toInt := by
    intro h
    rcases mem_decimalInt h with h | h
    · exact absurd h (by decide)
    · exact absurd h (by decide)
  have hquoted : 0 ∉ quoted sub := by
    rw [mem_quoted, not_or]
    exact ⟨by decide, hsub⟩
  simp only [sessionPayload, List.mem_append, not_or]
  exact ⟨⟨⟨⟨⟨⟨by decide, hquoted⟩, by decide⟩, hroles⟩, by decide⟩, hexp⟩, by decide⟩

/-- **The verifier of an issued cookie** reads the payload that was issued. -/
theorem edgeAuthSessionVerify_issued {ctx ctx' : EdgeAuthCtx} {clock : Clock} {sub : Option Bytes}
    {roles : UInt32} {cookieValSz : ℕ} {c : Bytes} {p : EdgePrincipal}
    (hissue : edgeAuthSessionIssue (some ctx) clock sub roles cookieValSz = some (c, p))
    (hsub : 0 ∉ subOrLab sub) (hkey : ctx'.hmacKey = ctx.hmacKey) (clock' : Clock)
    (out : EdgePrincipal) :
    edgeAuthSessionVerify (some ctx') clock' (some c) (some out)
      = match sessionRead (edgeAuthNowSec ctx' clock') (issuedPayload ctx clock sub roles) with
        | some p => p.map fun p => (0, some p)
        | none => some (-1, some edgePrincipalClear) := by
  rw [edgeAuthSessionIssue_eq] at hissue
  split_ifs at hissue with hfail
  push Not at hfail
  obtain ⟨⟨-, hkey0⟩, hlen, -⟩ := hfail
  obtain ⟨rfl, -⟩ := Prod.mk.inj (Option.some.inj hissue)
  have hpos : issuedPayload ctx clock sub roles ≠ [] := by
    rw [issuedPayload, sessionPayload_eq]
    exact List.cons_ne_nil _ _
  have hnul : 0 ∉ issuedPayload ctx clock sub roles := not_mem_sessionPayload hsub roles _
  have hread := sessionCheck_sealed (hkey ▸ hkey0 : ctx'.hmacKey.length ≠ 0)
    (edgeAuthNowSec ctx' clock') hpos hlen
  rw [hkey, cstr_of_not_mem hnul] at hread
  unfold edgeAuthSessionVerify
  cases hcase : sessionRead (edgeAuthNowSec ctx' clock') (issuedPayload ctx clock sub roles) with
  | none => simp only [Option.map_some, hread, hcase]
  | some p => simp only [Option.map_some, hread, hcase]

/-- What the verifier reads in a payload, whatever the subject. -/
theorem sessionRead_payload (now : Int64) (sub : Bytes) (roles : UInt32) (exp : Int64) :
    sessionRead now (sessionPayload sub (rolesJson roles) exp)
      = (readJsonString (quoted sub ++ bytes ",\"") EDGE_AUTH_SUB_MAX).bind fun s =>
          (if strstr (quoted sub) (quoted (bytes "exp")) = none then some exp
            else parseJsonInt64Field (quoted sub) (bytes "exp")).bind fun e =>
          if e > 0 ∧ now ≥ e then none
          else some ((parseRolesArray (sessionPayload sub (rolesJson roles) exp)).map fun roles =>
            { authenticated := true, sub := snprintf EDGE_AUTH_SUB_MAX s, roles, exp := e }) := by
  unfold sessionRead
  rw [parseJsonStringField_payload, parseJsonInt64Field_payload]
  simp only [Option.bind_eq_bind]
  refine Option.bind_congr fun s _ => Option.bind_congr fun e _ => ?_
  by_cases h : e > 0 ∧ now ≥ e
  · rw [guard, if_neg (not_not.mpr h), if_pos h]; rfl
  · rw [guard, if_pos h, if_neg h]; rfl

/-! ## Plain subjects -/

/-- The characters of a plain subject. -/
def isSubChar (c : UInt8) : Bool :=
  (charByte 'A' ≤ c ∧ c ≤ charByte 'Z') ∨ (charByte 'a' ≤ c ∧ c ≤ charByte 'z') ∨
    (charByte '0' ≤ c ∧ c ≤ charByte '9') ∨ c ∈ bytes "_.@-"

/-- A subject of one to 63 letters, digits and `_.@-`. -/
structure PlainSub (sub : Bytes) : Prop where
  pos : 1 ≤ sub.length
  le : sub.length ≤ 63
  chars : sub.all isSubChar

theorem PlainSub.not_mem {sub : Bytes} (h : PlainSub sub) {c : UInt8} (hc : ¬isSubChar c) : c ∉ sub :=
  fun hmem => hc (List.all_eq_true.mp h.chars c hmem)

theorem PlainSub.subOrLab {sub : Bytes} (h : PlainSub sub) : subOrLab (some sub) = sub := by
  cases sub with
  | nil => exact absurd h.pos (by decide)
  | cons c s => rfl

/-- A plain subject is never taken for the roles array. -/
theorem parseRolesArray_plain {sub : Bytes} (h : PlainSub sub) {roles : UInt32} (hroles : roles < 64)
    (exp : Int64) : parseRolesArray (sessionPayload sub (rolesJson roles) exp) = some roles := by
  rw [parseRolesArray_payload, strstr_quoted (by decide) (h.not_mem (by decide))]
  by_cases hsub : bytes "roles" = sub
  · -- the value is taken for the name, but the next brackets are the right ones
    have hopen : charByte '[' ∉
        quoted sub ++ charByte ',' :: (quoted (bytes "roles") ++ [charByte ':']) := by
      rw [← hsub]
      decide
    have hbracket := rolesBracket_rolesJson hopen roles (charByte ',' ::
      (quoted (bytes "exp") ++ charByte ':' :: (decimalInt exp.toInt ++ [charByte '\x7d'])))
    simp only [List.append_assoc, List.cons_append, List.nil_append] at hbracket
    rw [if_pos hsub]
    simp only [payloadTail, hbracket, rolesNamedIn_rolesJson, rolesMask_roleHas hroles]
  · rw [if_neg hsub]
    exact congrArg some (rolesMask_roleHas hroles)

/-- **What the verifier reads for a plain subject.** -/
theorem sessionRead_plain {sub : Bytes} (h : PlainSub sub) {roles : UInt32} (hroles : roles < 64)
    (now exp : Int64) :
    sessionRead now (sessionPayload sub (rolesJson roles) exp)
      = if sub = bytes "exp" ∨ (exp > 0 ∧ now ≥ exp) then none
        else some (some { authenticated := true, sub, roles, exp }) := by
  have hlen := h.le
  have hsub : readJsonString (quoted sub ++ bytes ",\"") EDGE_AUTH_SUB_MAX = some sub :=
    readJsonString_plain (h.not_mem (by decide)) (h.not_mem (by decide))
      (by rw [EDGE_AUTH_SUB_MAX]; omega) _
  rw [sessionRead_payload, hsub, strstr_quoted (by decide) (h.not_mem (by decide)),
    parseRolesArray_plain h hroles, Option.bind_some, snprintf_of_fits (by rw [EDGE_AUTH_SUB_MAX]; omega)]
  by_cases hexp : sub = bytes "exp"
  · have hnone : parseJsonInt64Field (quoted sub) (bytes "exp") = none := by
      rw [hexp]
      rfl
    rw [if_pos hexp.symm, if_neg (Option.some_ne_none _), if_pos (.inl hexp), hnone]
    rfl
  · rw [if_neg (Ne.symm hexp), if_pos rfl]
    simp only [Option.bind_some, hexp, false_or, Option.map_some]

/-- The lifetime of a cookie in seconds is positive and has 32 bits. -/
theorem sessionTtl_bounds (ctx : EdgeAuthCtx) :
    1 ≤ (sessionTtl ctx).toNat ∧ (sessionTtl ctx).toNat < 2 ^ 32 := by
  refine ⟨?_, (sessionTtl ctx).toNat_lt⟩
  unfold sessionTtl
  by_cases h : ctx.sessionTtlS = 0
  · rw [if_neg (not_not.mpr h)]
    decide
  · rw [if_pos h]
    have hne : ctx.sessionTtlS.toNat ≠ 0 := fun h0 => h (UInt32.toNat_inj.mp h0)
    omega

/-- The expiry wraps around in 64 bits. -/
theorem toInt_sessionExp {ctx : EdgeAuthCtx} {clock : Clock} (hnow : 0 < edgeAuthNowSec ctx clock) :
    (sessionExp ctx clock).toInt
      = if (edgeAuthNowSec ctx clock).toInt + (sessionTtl ctx).toNat < 2 ^ 63 then
          (edgeAuthNowSec ctx clock).toInt + (sessionTtl ctx).toNat
        else (edgeAuthNowSec ctx clock).toInt + (sessionTtl ctx).toNat - 2 ^ 64 := by
  have hnow : 0 < (edgeAuthNowSec ctx clock).toInt := Int64.lt_iff_toInt_lt.mp hnow
  have hlt := (edgeAuthNowSec ctx clock).toInt_lt
  obtain ⟨-, httl⟩ := sessionTtl_bounds ctx
  have hofNat : (Int64.ofNat (sessionTtl ctx).toNat).toInt = (sessionTtl ctx).toNat :=
    Int64.toInt_ofNat_of_lt (by omega)
  rw [sessionExp, Int64.toInt_add, hofNat, Int.bmod_def]
  split_ifs <;> omega

/-! ## The round trip -/

/-- A cookie comes back as the principal at every clock value before the expiry, under the key it was
signed with, and is refused from the expiry on. -/
def SessionRoundTrip (key c : Bytes) (p : EdgePrincipal) : Prop :=
  ∀ (ctx : EdgeAuthCtx) (clock : Clock) (out : EdgePrincipal), ctx.hmacKey = key →
    (0 < edgeAuthNowSec ctx clock → edgeAuthNowSec ctx clock < p.exp →
      edgeAuthSessionVerify (some ctx) clock (some c) (some out) = some (0, some p)) ∧
    (p.exp ≤ edgeAuthNowSec ctx clock →
      (edgeAuthSessionVerify (some ctx) clock (some c) (some out)).map Prod.fst = some (-1))

section RoundTrip

variable {ctx : EdgeAuthCtx} {clock : Clock} {sub : Bytes} {roles : UInt32} {cookieValSz : ℕ}
  {c : Bytes} {p : EdgePrincipal}

theorem principal_of_issued {sub : Option Bytes}
    (hissue : edgeAuthSessionIssue (some ctx) clock sub roles cookieValSz = some (c, p)) :
    p = issuedPrincipal ctx clock sub roles := by
  rw [edgeAuthSessionIssue_eq] at hissue
  split_ifs at hissue with hfail
  exact (Prod.mk.inj (Option.some.inj hissue)).2.symm

/-- The verifier on the cookie of a plain subject. -/
theorem edgeAuthSessionVerify_plain (hsub : PlainSub sub) (hroles : roles < 64)
    (hissue : edgeAuthSessionIssue (some ctx) clock (some sub) roles cookieValSz = some (c, p))
    {ctx' : EdgeAuthCtx} (hkey : ctx'.hmacKey = ctx.hmacKey) (clock' : Clock) (out : EdgePrincipal) :
    edgeAuthSessionVerify (some ctx') clock' (some c) (some out)
      = if sub = bytes "exp" ∨ (p.exp > 0 ∧ edgeAuthNowSec ctx' clock' ≥ p.exp)
        then some (-1, some edgePrincipalClear) else some (0, some p) := by
  have hle := hsub.le
  have hnul : 0 ∉ subOrLab (some sub) := by
    rw [hsub.subOrLab]
    exact hsub.not_mem (by decide)
  rw [edgeAuthSessionVerify_issued hissue hnul hkey, issuedPayload, hsub.subOrLab,
    sessionRead_plain hsub hroles, principal_of_issued hissue, issuedPrincipal, hsub.subOrLab,
    snprintf_of_fits (by rw [EDGE_AUTH_SUB_MAX]; omega)]
  by_cases h : sub = bytes "exp" ∨ (sessionExp ctx clock > 0 ∧
      edgeAuthNowSec ctx' clock' ≥ sessionExp ctx clock)
  · rw [if_pos h, if_pos h]
  · rw [if_neg h, if_neg h]
    rfl

/-- **The round trip holds exactly** when the subject is not taken for the name of the expiry, which must
not overflow. (When both go wrong the cookie is refused and has already expired.) -/
theorem sessionRoundTrip_iff (hnow : 0 < edgeAuthNowSec ctx clock) (hsub : PlainSub sub)
    (hroles : roles < 64)
    (hissue : edgeAuthSessionIssue (some ctx) clock (some sub) roles cookieValSz = some (c, p)) :
    SessionRoundTrip ctx.hmacKey c p ↔
      (sub ≠ bytes "exp" ∧ (edgeAuthNowSec ctx clock).toInt + (sessionTtl ctx).toNat < 2 ^ 63) ∨
      (sub = bytes "exp" ∧ 2 ^ 63 ≤ (edgeAuthNowSec ctx clock).toInt + (sessionTtl ctx).toNat) := by
  obtain ⟨httl, httl32⟩ := sessionTtl_bounds ctx
  have hval := toInt_sessionExp hnow
  rw [show sessionExp ctx clock = p.exp by rw [principal_of_issued hissue]; rfl] at hval
  have hnow : 0 < (edgeAuthNowSec ctx clock).toInt := Int64.lt_iff_toInt_lt.mp hnow
  have hlt := (edgeAuthNowSec ctx clock).toInt_lt
  have hverify := fun (ctx' : EdgeAuthCtx) (hkey : ctx'.hmacKey = ctx.hmacKey) =>
    edgeAuthSessionVerify_plain hsub hroles hissue hkey
  -- the clock value 1, which an override can set
  have hone : edgeAuthNowSec { ctx with nowSecOverride := 1 } clock = 1 := rfl
  have hverify₁ := hverify { ctx with nowSecOverride := 1 } rfl clock edgePrincipalClear
  rw [hone] at hverify₁
  by_cases hover : (edgeAuthNowSec ctx clock).toInt + (sessionTtl ctx).toNat < 2 ^ 63
  · have hfuture : 1 < p.exp := by
      rw [Int64.lt_iff_toInt_lt, hval, if_pos hover]
      have h1 : (1 : Int64).toInt = 1 := rfl
      omega
    refine ⟨fun hrt => .inl ⟨fun hname => ?_, hover⟩, ?_⟩
    · have hback := (hrt { ctx with nowSecOverride := 1 } clock edgePrincipalClear rfl).1
      rw [hone, hverify₁, if_pos (.inl hname)] at hback
      exact absurd (hback (by decide) hfuture) (by simp)
    · rintro (⟨hname, -⟩ | ⟨-, hbad⟩)
      · intro ctx' clock' out hkey
        have hpos : p.exp > 0 := Int64.lt_trans (by decide) hfuture
        refine ⟨fun _ hbefore => ?_, fun hafter => ?_⟩
        · rw [hverify ctx' hkey, if_neg]
          rintro (h | ⟨-, h⟩)
          · exact hname h
          · exact absurd hbefore (Int64.not_lt.mpr h)
        · rw [hverify ctx' hkey, if_pos (.inr ⟨hpos, hafter⟩)]
          rfl
      · exact absurd hover (not_lt.mpr hbad)
  · have hpast : p.exp < 0 := by
      rw [Int64.lt_iff_toInt_lt, hval, if_neg hover]
      have h0 : (0 : Int64).toInt = 0 := rfl
      omega
    refine ⟨fun hrt => .inr ⟨?_, by omega⟩, ?_⟩
    · by_contra hname
      have hback := (hrt { ctx with nowSecOverride := 1 } clock edgePrincipalClear rfl).2
      have hno : ¬(sub = bytes "exp" ∨ (p.exp > 0 ∧ 1 ≥ p.exp)) := by
        rintro (h | ⟨h, -⟩)
        · exact hname h
        · exact absurd h (Int64.not_lt.mpr (Int64.le_of_lt hpast))
      rw [hone, hverify₁, if_neg hno] at hback
      have hfail : some (0 : ℤ) = some (-1) :=
        hback (Int64.le_of_lt (Int64.lt_trans hpast (by decide)))
      exact absurd hfail (by decide)
    · rintro (⟨-, hbad⟩ | ⟨hname, -⟩)
      · exact absurd hbad hover
      · intro ctx' clock' out hkey
        rw [hverify ctx' hkey, if_pos (.inl hname)]
        refine ⟨fun hpos hbefore => ?_, fun _ => rfl⟩
        exact absurd (Int64.lt_trans hpos hbefore) (Int64.not_lt.mpr (Int64.le_of_lt hpast))

/-- A cookie is issued when there is a key, a short payload and a buffer of the usual size. -/
theorem exists_issued (ctx : EdgeAuthCtx) (clock : Clock) (sub : Option Bytes) (roles : UInt32)
    (hkey : ctx.hmacKey.length ≠ 0) (hlen : (issuedPayload ctx clock sub roles).length < 256) :
    ∃ c p, edgeAuthSessionIssue (some ctx) clock sub roles EDGE_AUTH_COOKIE_MAX = some (c, p) := by
  refine ⟨sealedCookie ctx.hmacKey (issuedPayload ctx clock sub roles),
    issuedPrincipal ctx clock sub roles, ?_⟩
  rw [edgeAuthSessionIssue_eq, if_neg]
  rintro ((h | h) | h | h)
  · exact absurd h (by decide)
  · exact hkey h
  · omega
  · have hpay := length_b64Digits (issuedPayload ctx clock sub roles)
    have hmac := length_b64Digits (hmacSha256 ctx.hmacKey (issuedPayload ctx clock sub roles))
    rw [length_hmacSha256] at hmac
    rw [sealedCookie, List.length_append, List.length_cons, List.length_map, List.length_map,
      EDGE_AUTH_COOKIE_MAX] at h
    omega

end RoundTrip

/-- A lab setup: a key, a lifetime of one hour and a fixed clock. -/
def labCtx : EdgeAuthCtx :=
  { edgeAuthCtxInit with
    mode := .modeLabPassword
    labPassword := bytes "s3cret"
    hmacKey := bytes "hmac-key-lab"
    sessionTtlS := 3600
    nowSecOverride := 1700000000 }

def epoch : Clock where
  sec := 0
  nonneg := by decide

/-- The condition is met by the subject `lab`. -/
theorem sessionRoundTrip_lab :
    ∃ c p, edgeAuthSessionIssue (some labCtx) epoch (some (bytes "lab")) EdgeRole.employee.bit
        EDGE_AUTH_COOKIE_MAX = some (c, p) ∧
      (SessionRoundTrip labCtx.hmacKey c p ↔
        (bytes "lab" ≠ bytes "exp" ∧
          (edgeAuthNowSec labCtx epoch).toInt + (sessionTtl labCtx).toNat < 2 ^ 63) ∨
        (bytes "lab" = bytes "exp" ∧
          2 ^ 63 ≤ (edgeAuthNowSec labCtx epoch).toInt + (sessionTtl labCtx).toNat)) := by
  obtain ⟨c, p, hissue⟩ := exists_issued labCtx epoch (some (bytes "lab"))
    EdgeRole.employee.bit (by decide) (by decide)
  have hsub : PlainSub (bytes "lab") := ⟨by decide, by decide, by decide⟩
  exact ⟨c, p, hissue, sessionRoundTrip_iff (by decide) hsub (by decide) hissue⟩

/-- The subject `exp` is locked out by its own name: the cookie is refused as soon as it is issued. -/
theorem not_sessionRoundTrip_exp :
    PlainSub (bytes "exp") ∧ 0 < edgeAuthNowSec labCtx epoch ∧
    ∃ c p, edgeAuthSessionIssue (some labCtx) epoch (some (bytes "exp")) EdgeRole.employee.bit
        EDGE_AUTH_COOKIE_MAX = some (c, p) ∧
      edgeAuthNowSec labCtx epoch < p.exp ∧
      edgeAuthSessionVerify (some labCtx) epoch (some c) (some edgePrincipalClear)
        = some (-1, some edgePrincipalClear) ∧
      ¬SessionRoundTrip labCtx.hmacKey c p := by
  have hsub : PlainSub (bytes "exp") := ⟨by decide, by decide, by decide⟩
  obtain ⟨c, p, hissue⟩ := exists_issued labCtx epoch (some (bytes "exp"))
    EdgeRole.employee.bit (by decide) (by decide)
  have hlater : edgeAuthNowSec labCtx epoch < p.exp := by
    rw [principal_of_issued hissue]
    decide
  have hverify : edgeAuthSessionVerify (some labCtx) epoch (some c) (some edgePrincipalClear)
      = some (-1, some edgePrincipalClear) := by
    rw [edgeAuthSessionVerify_plain hsub (by decide) hissue rfl, if_pos (.inl rfl)]
  refine ⟨hsub, by decide, c, p, hissue, hlater, hverify, fun hrt => ?_⟩
  have hback := (hrt labCtx epoch edgePrincipalClear rfl).1 (by decide) hlater
  rw [hverify] at hback
  exact absurd hback (by simp)

/-! ## Roles -/

/-- A verdict is defined, and a principal that it accepts has no role outside the mask. -/
def KeepsMask (roles : UInt32) (verdict : Option (ℤ × Option EdgePrincipal)) : Prop :=
  ∃ rc out, verdict = some (rc, out) ∧ ∀ p, rc = 0 → out = some p → p.roles &&& roles = p.roles

/-- Under its key, a cookie never grants a role outside the mask. -/
def NoRolesRaised (key c : Bytes) (roles : UInt32) : Prop :=
  ∀ (ctx : EdgeAuthCtx) (clock : Clock) (out : EdgePrincipal), ctx.hmacKey = key →
    KeepsMask roles (edgeAuthSessionVerify (some ctx) clock (some c) (some out))

/-- The part of the quoted subject that is taken for the field of the roles: it has the name of the field
and behind it a bracket. -/
def forgedText (sub : Bytes) : Option Bytes :=
  (strstr (quoted sub) (quoted (bytes "roles"))).filter fun t => charByte '[' ∈ t

/-- The buffer holds a role outside the mask, or was overrun. -/
def RolesBuf.Raises (roles : UInt32) : RolesBuf → Prop
  | .empty => False
  | .copied buf => ∃ r : EdgeRole, (strstr buf (quoted r.text)).isSome ∧ ¬edgeAuthRoleHas roles r
  | .overrun => True

/-- The subject passes for a roles array with a role outside the mask, or for one of 128 bytes: the
brackets it opens, which the payload's own array may close, name such a role and fit the buffer, or fill
it, and the searches for the subject and the expiry still succeed. -/
structure ForgesRoles (sub : Bytes) (roles : UInt32) : Prop where
  sub_read : (readJsonString (quoted sub ++ bytes ",\"") EDGE_AUTH_SUB_MAX).isSome
  exp_read : strstr (quoted sub) (quoted (bytes "exp")) = none ∨
    (parseJsonInt64Field (quoted sub) (bytes "exp")).isSome
  raises : ∃ t, forgedText sub = some t ∧
    (rolesBracket (t ++ bytes ",\"roles\":" ++ rolesJson roles)).Raises roles

/-- Brackets that are closed are copied the same in front of more text. -/
theorem rolesBracket_append {p : Bytes} (hopen : charByte '[' ∈ p) (s s' : Bytes) :
    rolesBracket (p ++ s ++ charByte ']' :: s') = rolesBracket (p ++ s ++ [charByte ']']) := by
  obtain ⟨u, hu⟩ := Option.ne_none_iff_exists'.mp fun h => strchr_eq_none.mp h hopen
  obtain ⟨a, b, ha, rfl, rfl⟩ := strchr_eq_some.mp hu
  have hclose : charByte ']' ∈ b ++ s ++ [charByte ']'] :=
    List.mem_append_right _ List.mem_cons_self
  obtain ⟨v, hv⟩ := Option.ne_none_iff_exists'.mp fun h => strchr_eq_none.mp h hclose
  obtain ⟨body, c, hbody, hsplit, rfl⟩ := strchr_eq_some.mp hv
  have hlong : a ++ charByte '[' :: b ++ s ++ charByte ']' :: s'
      = a ++ charByte '[' :: (body ++ charByte ']' :: (c ++ s')) := by
    have h := congrArg (· ++ s') hsplit
    simp only [List.append_assoc, List.cons_append, List.nil_append] at h ⊢
    rw [h]
  have hshort : a ++ charByte '[' :: b ++ s ++ [charByte ']']
      = a ++ charByte '[' :: (body ++ charByte ']' :: c) := by
    simp only [List.append_assoc, List.cons_append] at hsplit ⊢
    rw [hsplit]
  rw [hlong, hshort, rolesBracket_eq ha hbody, rolesBracket_eq ha hbody]

/-- **The roles read from a payload**: the given ones, or what the subject passes for. -/
theorem parseRolesArray_forged (sub : Bytes) (roles : UInt32) (exp : Int64) :
    parseRolesArray (sessionPayload sub (rolesJson roles) exp)
      = match forgedText sub with
        | none => some (rolesMask (edgeAuthRoleHas roles))
        | some t =>
          match rolesBracket (t ++ bytes ",\"roles\":" ++ rolesJson roles) with
          | .empty => some 0
          | .copied buf => some (rolesNamedIn buf)
          | .overrun => none := by
  have htail : charByte ',' :: payloadTail roles exp
      = bytes ",\"roles\":" ++ (rolesJson roles ++ charByte ',' :: (quoted (bytes "exp") ++
          charByte ':' :: (decimalInt exp.toInt ++ [charByte '\x7d']))) := by
    simp [payloadTail, bytes, quoted, quoteByte]
  rw [parseRolesArray_payload, forgedText]
  cases hfind : strstr (quoted sub) (quoted (bytes "roles")) with
  | none => rfl
  | some t =>
    by_cases hopen : charByte '[' ∈ t
    · have hbracket : rolesBracket (t ++ charByte ',' :: payloadTail roles exp)
          = rolesBracket (t ++ bytes ",\"roles\":" ++ rolesJson roles) := by
        have h := rolesBracket_append hopen
          (bytes ",\"roles\":" ++ charByte '[' :: joinNames (roleNames roles))
          (charByte ',' :: (quoted (bytes "exp") ++
            charByte ':' :: (decimalInt exp.toInt ++ [charByte '\x7d'])))
        rw [htail]
        simpa only [rolesJson, List.append_assoc, List.cons_append, List.nil_append] using h
      rw [Option.filter_some_pos (by simpa using hopen)]
      cases hcase : rolesBracket (t ++ bytes ",\"roles\":" ++ rolesJson roles) with
      | empty => simp only [hbracket, hcase]
      | copied buf => simp only [hbracket, hcase]
      | overrun => simp only [hbracket, hcase]
    · have hskip : charByte '[' ∉ t ++ bytes ",\"roles\":" := by
        rw [List.mem_append, not_or]
        exact ⟨hopen, by decide⟩
      have hbracket : rolesBracket (t ++ charByte ',' :: payloadTail roles exp)
          = .copied (rolesJson roles) := by
        rw [htail, ← List.append_assoc, rolesBracket_rolesJson hskip]
      rw [Option.filter_some_neg (by simpa using hopen)]
      simp only [hbracket, rolesNamedIn_rolesJson]

/-- An expiry is found in the subject if it has the name of the field with a number, and in the field itself
if it does not have the name. -/
theorem isSome_exp_iff (sub : Bytes) (exp : Int64) :
    (if strstr (quoted sub) (quoted (bytes "exp")) = none then some exp
      else parseJsonInt64Field (quoted sub) (bytes "exp")).isSome ↔
      strstr (quoted sub) (quoted (bytes "exp")) = none ∨
        (parseJsonInt64Field (quoted sub) (bytes "exp")).isSome := by
  by_cases hname : strstr (quoted sub) (quoted (bytes "exp")) = none
  · rw [if_pos hname]
    exact iff_of_true rfl (.inl hname)
  · rw [if_neg hname, or_iff_right hname]

theorem keepsMask_rejected (roles : UInt32) (out : Option EdgePrincipal) :
    KeepsMask roles (some (-1, out)) :=
  ⟨-1, out, rfl, fun _ hrc => absurd hrc (by decide)⟩

/-- What an accepted cookie grants is what was read, and reading must be defined. -/
theorem keepsMask_accepted_iff {roles : UInt32} {read : Option UInt32} {f : UInt32 → EdgePrincipal}
    (hf : ∀ granted, (f granted).roles = granted) :
    KeepsMask roles ((read.map f).map fun p => (0, some p))
      ↔ ∃ granted, read = some granted ∧ granted &&& roles = granted := by
  cases read with
  | none => exact iff_of_false (fun ⟨_, _, h, _⟩ => nomatch h) fun ⟨_, h, _⟩ => nomatch h
  | some granted =>
    constructor
    · rintro ⟨rc, out, hv, hroles⟩
      obtain ⟨rfl, rfl⟩ := Prod.mk.inj (Option.some.inj hv)
      exact ⟨granted, rfl, hf granted ▸ hroles _ rfl rfl⟩
    · rintro ⟨_, hread, hkept⟩
      obtain rfl := Option.some.inj hread
      refine ⟨0, some (f granted), rfl, fun p _ hp => ?_⟩
      obtain rfl := Option.some.inj hp
      rwa [hf granted]

/-- **The roles read from a payload are within the mask** exactly when the subject does not pass for a
roles array that raises them. -/
theorem parseRolesArray_kept_iff (sub : Bytes) (roles : UInt32) (exp : Int64) :
    (∃ granted, parseRolesArray (sessionPayload sub (rolesJson roles) exp) = some granted ∧
        granted &&& roles = granted)
      ↔ ¬∃ t, forgedText sub = some t ∧
          (rolesBracket (t ++ bytes ",\"roles\":" ++ rolesJson roles)).Raises roles := by
  rw [parseRolesArray_forged]
  cases forgedText sub with
  | none =>
    exact iff_of_true ⟨_, rfl, (rolesMask_and _ _).mpr fun _ h => h⟩ fun ⟨_, h, _⟩ => nomatch h
  | some t =>
    simp only [Option.some.injEq, exists_eq_left']
    cases rolesBracket (t ++ bytes ",\"roles\":" ++ rolesJson roles) with
    | empty => exact iff_of_true ⟨0, rfl, UInt32.zero_and⟩ id
    | overrun => exact iff_of_false (fun ⟨_, h, _⟩ => nomatch h) (not_not.mpr trivial)
    | copied buf =>
      simp only [RolesBuf.Raises, Option.some.injEq, exists_eq_left']
      rw [show rolesNamedIn buf = rolesMask fun r => (strstr buf (quoted r.text)).isSome from rfl,
        rolesMask_and]
      push Not
      exact Iff.rfl

section Roles

variable {ctx : EdgeAuthCtx} {clock : Clock} {sub : Option Bytes} {roles : UInt32}
  {cookieValSz : ℕ} {c : Bytes} {p : EdgePrincipal}

/-- **Roles are kept exactly** when the subject does not pass for a roles array. -/
theorem noRolesRaised_iff (hsub : 0 ∉ subOrLab sub)
    (hissue : edgeAuthSessionIssue (some ctx) clock sub roles cookieValSz = some (c, p)) :
    NoRolesRaised ctx.hmacKey c roles ↔ ¬ForgesRoles (subOrLab sub) roles := by
  have hverify := fun (ctx' : EdgeAuthCtx) (hkey : ctx'.hmacKey = ctx.hmacKey) =>
    edgeAuthSessionVerify_issued hissue hsub hkey
  have hkept_iff := parseRolesArray_kept_iff (subOrLab sub) roles (sessionExp ctx clock)
  constructor
  · rintro hkept ⟨hsubRead, hexpRead, hraises⟩
    obtain ⟨s, hs⟩ := Option.isSome_iff_exists.mp hsubRead
    obtain ⟨e, he⟩ := Option.isSome_iff_exists.mp
      ((isSome_exp_iff (subOrLab sub) (sessionExp ctx clock)).mpr hexpRead)
    -- at the Epoch no cookie has expired
    have hepoch : edgeAuthNowSec { ctx with nowSecOverride := 0 } epoch = 0 := rfl
    have hopen : ¬(e > 0 ∧ (0 : Int64) ≥ e) := fun h => absurd h.1 (Int64.not_lt.mpr h.2)
    have hgranted := hkept { ctx with nowSecOverride := 0 } epoch edgePrincipalClear rfl
    rw [hverify { ctx with nowSecOverride := 0 } rfl, issuedPayload, sessionRead_payload, hs, he,
      hepoch] at hgranted
    simp only [Option.bind_some, if_neg hopen] at hgranted
    exact hkept_iff.mp ((keepsMask_accepted_iff fun _ => rfl).mp hgranted) hraises
  · intro hno ctx' clock' out hkey
    rw [hverify ctx' hkey, issuedPayload, sessionRead_payload]
    have hrejected := keepsMask_rejected roles (some edgePrincipalClear)
    cases hs : readJsonString (quoted (subOrLab sub) ++ bytes ",\"") EDGE_AUTH_SUB_MAX with
    | none => exact hrejected
    | some s =>
      cases he : (if strstr (quoted (subOrLab sub)) (quoted (bytes "exp")) = none
          then some (sessionExp ctx clock)
          else parseJsonInt64Field (quoted (subOrLab sub)) (bytes "exp")) with
      | none => exact hrejected
      | some e =>
        have hexpRead := (isSome_exp_iff (subOrLab sub) (sessionExp ctx clock)).mp
          (Option.isSome_iff_exists.mpr ⟨e, he⟩)
        simp only [Option.bind_some]
        by_cases hexpired : e > 0 ∧ edgeAuthNowSec ctx' clock' ≥ e
        · rw [if_pos hexpired]
          exact hrejected
        · rw [if_neg hexpired]
          exact (keepsMask_accepted_iff fun _ => rfl).mpr (hkept_iff.mpr fun hraises =>
            hno ⟨Option.isSome_iff_exists.mpr ⟨s, hs⟩, hexpRead, hraises⟩)

/-- The condition is met by the subject `lab`. -/
theorem noRolesRaised_lab :
    ∃ c p, edgeAuthSessionIssue (some labCtx) epoch (some (bytes "lab")) EdgeRole.customer.bit
        EDGE_AUTH_COOKIE_MAX = some (c, p) ∧
      (NoRolesRaised labCtx.hmacKey c EdgeRole.customer.bit ↔
        ¬ForgesRoles (subOrLab (some (bytes "lab"))) EdgeRole.customer.bit) := by
  obtain ⟨c, p, hissue⟩ := exists_issued labCtx epoch (some (bytes "lab")) EdgeRole.customer.bit
    (by decide) (by decide)
  exact ⟨c, p, hissue, noRolesRaised_iff (by decide) hissue⟩

/-- A customer whose name closes its own quotes and lists an administrator. -/
def forgingSub : Bytes := bytes "x\",\"roles\":[\"employee_admin\"],\"z\":\""

/-- A subject that writes its own roles array: the cookie of a customer is one of an administrator. -/
theorem rolesRaised_forgingSub :
    0 ∉ forgingSub ∧
    ∃ c p p', edgeAuthSessionIssue (some labCtx) epoch (some forgingSub) EdgeRole.customer.bit
        EDGE_AUTH_COOKIE_MAX = some (c, p) ∧
      edgeAuthSessionVerify (some labCtx) epoch (some c) (some edgePrincipalClear)
        = some (0, some p') ∧
      p'.roles = EdgeRole.employeeAdmin.bit ∧
      ¬NoRolesRaised labCtx.hmacKey c EdgeRole.customer.bit := by
  obtain ⟨c, p, hissue⟩ := exists_issued labCtx epoch (some forgingSub) EdgeRole.customer.bit
    (by decide) (by decide)
  obtain ⟨p', hread, hroles⟩ : ∃ p', sessionRead (edgeAuthNowSec labCtx epoch)
      (issuedPayload labCtx epoch (some forgingSub) EdgeRole.customer.bit) = some (some p') ∧
      p'.roles = EdgeRole.employeeAdmin.bit := ⟨_, rfl, by decide⟩
  have hverify : edgeAuthSessionVerify (some labCtx) epoch (some c) (some edgePrincipalClear)
      = some (0, some p') := by
    rw [edgeAuthSessionVerify_issued hissue (by decide) rfl, hread]
    rfl
  refine ⟨by decide, c, p, p', hissue, hverify, hroles, fun hkept => ?_⟩
  obtain ⟨rc, out', hv, hsub⟩ := hkept labCtx epoch edgePrincipalClear rfl
  obtain ⟨rfl, rfl⟩ := Prod.mk.inj (Option.some.inj (hverify.symm.trans hv))
  have hsub := hsub p' rfl rfl
  rw [hroles] at hsub
  exact absurd hsub (by decide)

end Roles

end Edgehost
