import Edgehost.Core.AuthIssued
import Edgehost.Core.AuthVerify
import Edgehost.Core.Base64Laws

/-!
# Cookies that spell the same bytes

The signature binds the bytes that the two parts of a cookie decode to, not the characters. The decoder
takes both alphabets, stops at the first `=` and drops leftover bits, so that a cookie can be written
in other ways.

* `sessionCheck_parts` is the verifier in terms of the two parts and what they decode to.
* `respelled_cookie` says what becomes of an issued cookie that is written in another way, and which
  parts are the encoding of what they decode to.
-/

namespace Edgehost

/-- A cookie of two parts with a dot between them, and the bytes they decode to in the verifier's
buffers. -/
structure CookieBytes (c payB64 sigB64 payload sig : Bytes) : Prop where
  parts : c = payB64 ++ charByte '.' :: sigB64
  first : charByte '.' ∉ payB64
  payload : b64Decode payB64 320 = some payload
  sig : b64Decode sigB64 32 = some sig

/-- The parts fit the verifier's buffers. -/
def PartsFit (payB64 sigB64 : Bytes) : Prop := payB64.length < 400 ∧ sigB64.length < 64

instance (payB64 sigB64 : Bytes) : Decidable (PartsFit payB64 sigB64) :=
  inferInstanceAs (Decidable (_ ∧ _))

/-- What the verifier says of decoded bytes. -/
def sessionOfBytes (ctx : EdgeAuthCtx) (now : Int64) (payload sig : Bytes) :
    Option (Option EdgePrincipal) := do
  guard (¬ctx.hmacKey.length = 0)
  guard (¬(payload.length = 0 ∨ payload.length ≥ 320))
  guard (¬sig.length ≠ 32)
  guard (ctEq (hmacSha256 ctx.hmacKey payload) sig 32)
  sessionRead now (cstr payload)

/-! ## The verifier -/

theorem guard_eq_ite {α : Type} (p : Prop) [Decidable p] (k : Option α) :
    ((guard p : Option Unit).bind fun _ => k) = if p then k else none := by
  by_cases hp : p
  · rw [guard, if_pos hp, if_pos hp]
    rfl
  · rw [guard, if_neg hp, if_neg hp]
    rfl

/-- **The verifier reads a cookie through its decoded bytes**, if the parts fit. -/
theorem sessionCheck_parts {c payB64 sigB64 payload sig : Bytes}
    (hc : CookieBytes c payB64 sigB64 payload sig) (ctx : EdgeAuthCtx) (now : Int64) :
    sessionCheck ctx now c
      = if PartsFit payB64 sigB64 then sessionOfBytes ctx now payload sig else none := by
  obtain ⟨rfl, hfirst, hpay, hsig⟩ := hc
  have hdot : strchr (payB64 ++ charByte '.' :: sigB64) (charByte '.')
      = some (charByte '.' :: sigB64) := strchr_eq_some.mpr ⟨payB64, sigB64, hfirst, rfl, rfl⟩
  unfold sessionCheck sessionOfBytes
  simp only [Option.bind_eq_bind, guard_eq_ite, hdot, Option.bind_some, List.length_append,
    Nat.add_sub_cancel, List.take_left, List.drop_succ_cons, List.drop_zero, hpay, hsig]
  by_cases hkey : ctx.hmacKey.length = 0
  · simp [hkey]
  rw [if_pos hkey]
  by_cases hfit : PartsFit payB64 sigB64
  · rw [if_pos hfit, if_pos hkey]
    by_cases hempty : payB64 = [] ∨ sigB64 = []
    · -- An empty part decodes to nothing, which is no payload and no signature.
      rw [if_neg (not_not.mpr hempty)]
      rcases hempty with rfl | rfl
      · obtain rfl := Option.some.inj hpay
        rfl
      · obtain rfl := Option.some.inj hsig
        simp
    · rw [if_pos hempty, if_pos (not_le.mpr hfit.1), if_pos (not_le.mpr hfit.2)]
  · rw [if_neg hfit]
    by_cases hpaylong : payB64.length ≥ 400
    · simp [hpaylong]
    · have hsiglong : sigB64.length ≥ 64 := by
        by_contra hshort
        exact hfit ⟨not_le.mp hpaylong, not_le.mp hshort⟩
      simp [hsiglong]

/-- A payload under a wrong signature is rejected. -/
theorem sessionOfBytes_wrongMac {ctx : EdgeAuthCtx} {payload sig : Bytes}
    (hsig : sig ≠ hmacSha256 ctx.hmacKey payload) (now : Int64) :
    sessionOfBytes ctx now payload sig = none := by
  unfold sessionOfBytes
  simp only [Option.bind_eq_bind, guard_eq_ite]
  by_cases hlen : sig.length = 32
  · have hmac : ¬ ctEq (hmacSha256 ctx.hmacKey payload) sig 32 = true := fun h =>
      hsig ((ctEq_iff (length_hmacSha256 _ _) hlen).mp h).symm
    simp [hmac]
  · simp [hlen]

/-! ## Issued cookies -/

/-- The parts of an issued cookie. -/
theorem exists_cookieBytes {ctx : EdgeAuthCtx} {clock : Clock} {sub : Option Bytes} {roles : UInt32}
    {cookieValSz : ℕ} {c : Bytes} {p : EdgePrincipal}
    (hissue : edgeAuthSessionIssue (some ctx) clock sub roles cookieValSz = some (c, p)) :
    ∃ payload sig, CookieBytes c ((b64Digits payload).map b64UrlDigit)
      ((b64Digits sig).map b64UrlDigit) payload sig ∧ payload.length < 256 ∧ sig.length = 32 := by
  rw [edgeAuthSessionIssue_eq] at hissue
  split_ifs at hissue with hfail
  rw [not_or, not_or] at hfail
  have hsealed := (Prod.mk.inj (Option.some.inj hissue)).1
  have hpaylen := length_b64Digits (issuedPayload ctx clock sub roles)
  have hmac := length_hmacSha256 ctx.hmacKey (issuedPayload ctx clock sub roles)
  have hsiglen := length_b64Digits (hmacSha256 ctx.hmacKey (issuedPayload ctx clock sub roles))
  refine ⟨issuedPayload ctx clock sub roles, hmacSha256 ctx.hmacKey _,
    ⟨hsealed.symm, fun h => ?_, b64Decode_url (by omega) (by omega), b64Decode_url hmac.le (by omega)⟩,
    by omega, hmac⟩
  obtain ⟨d, hd, hdot⟩ := List.mem_map.mp h
  exact b64UrlDigit_ne_dot (b64Digits_lt _ d hd) hdot

/-- They fit. -/
theorem partsFit_issued {ctx : EdgeAuthCtx} {clock : Clock} {sub : Option Bytes} {roles : UInt32}
    {cookieValSz : ℕ} {c payB64 sigB64 payload sig : Bytes} {p : EdgePrincipal}
    (hissue : edgeAuthSessionIssue (some ctx) clock sub roles cookieValSz = some (c, p))
    (hc : CookieBytes c payB64 sigB64 payload sig) : PartsFit payB64 sigB64 := by
  obtain ⟨pay, mac, hissued, hpay, hmac⟩ := exists_cookieBytes hissue
  obtain ⟨rfl, rfl⟩ := append_cons_inj hissued.first hc.first (hissued.parts.symm.trans hc.parts)
  have hpaylen := length_b64Digits pay
  have hmaclen := length_b64Digits mac
  rw [PartsFit, List.length_map, List.length_map]
  omega

theorem edgeAuthSessionVerify_eq (ctx : EdgeAuthCtx) (clock : Clock) (c : Bytes)
    (out : EdgePrincipal) :
    edgeAuthSessionVerify (some ctx) clock (some c) (some out)
      = match sessionCheck ctx (edgeAuthNowSec ctx clock) c with
        | some p => p.map fun p => (0, some p)
        | none => some (-1, some edgePrincipalClear) := rfl

/-- Written in another way, an issued cookie means the same. -/
theorem verify_respelled {ctx : EdgeAuthCtx} {clock : Clock} {sub : Option Bytes} {roles : UInt32}
    {cookieValSz : ℕ} {c payB64 sigB64 c' payB64' sigB64' payload sig : Bytes} {p : EdgePrincipal}
    (hissue : edgeAuthSessionIssue (some ctx) clock sub roles cookieValSz = some (c, p))
    (hc : CookieBytes c payB64 sigB64 payload sig) (hc' : CookieBytes c' payB64' sigB64' payload sig)
    (ctx' : EdgeAuthCtx) (clock' : Clock) (out : EdgePrincipal) :
    edgeAuthSessionVerify (some ctx') clock' (some c') (some out)
      = if PartsFit payB64' sigB64'
        then edgeAuthSessionVerify (some ctx') clock' (some c) (some out)
        else some (-1, some edgePrincipalClear) := by
  rw [edgeAuthSessionVerify_eq, edgeAuthSessionVerify_eq, sessionCheck_parts hc',
    sessionCheck_parts hc, if_pos (partsFit_issued hissue hc)]
  by_cases hfit : PartsFit payB64' sigB64'
  · rw [if_pos hfit, if_pos hfit]
  · rw [if_neg hfit, if_neg hfit]

/-- **What the signature binds.** A cookie with the decoded bytes of an issued one gets the same verdict
and principal from every verifier, unless a part is too long for it. A cookie whose decoded signature is
not the MAC of its decoded payload is rejected. And a part that the decoder accepts is the encoding of
what it decodes to exactly if it is canonical. -/
theorem respelled_cookie :
    (∀ ctx clock sub roles cookieValSz c p,
      edgeAuthSessionIssue (some ctx) clock sub roles cookieValSz = some (c, p) →
        ∀ payB64 sigB64 payload sig, CookieBytes c payB64 sigB64 payload sig →
          ∀ c' payB64' sigB64', CookieBytes c' payB64' sigB64' payload sig →
            ∀ ctx' clock' out,
              edgeAuthSessionVerify (some ctx') clock' (some c') (some out)
                = if PartsFit payB64' sigB64'
                  then edgeAuthSessionVerify (some ctx') clock' (some c) (some out)
                  else some (-1, some edgePrincipalClear)) ∧
    (∀ c payB64 sigB64 payload sig, CookieBytes c payB64 sigB64 payload sig →
      ∀ ctx clock out, sig ≠ hmacSha256 ctx.hmacKey payload →
        edgeAuthSessionVerify (some ctx) clock (some c) (some out)
          = some (-1, some edgePrincipalClear)) ∧
    ∀ s b outSz encSz, b64Decode s outSz = some b → (b.length + 2) / 3 * 4 + 1 ≤ encSz →
      (b64Encode b encSz true = some s ↔ CanonicalUrl s) := by
  refine ⟨?_, ?_, fun s b outSz encSz hdec henc => b64Encode_decode_iff hdec henc⟩
  · intro ctx clock sub roles cookieValSz c p hissue payB64 sigB64 payload sig hc c' payB64' sigB64' hc'
      ctx' clock' out
    exact verify_respelled hissue hc hc' ctx' clock' out
  · intro c payB64 sigB64 payload sig hc ctx clock out hsig
    rw [edgeAuthSessionVerify_eq, sessionCheck_parts hc, sessionOfBytes_wrongMac hsig, ite_self]

/-- The conditions are met by the cookie of the subject `lab`, by a cookie with a signature of one byte
and by a part in the standard alphabet. -/
theorem respelled_cookie_lab :
    (∃ c p, edgeAuthSessionIssue (some labCtx) epoch (some (bytes "lab")) EdgeRole.employee.bit
        EDGE_AUTH_COOKIE_MAX = some (c, p) ∧
      ∃ payB64 sigB64, PartsFit payB64 sigB64 ∧
        edgeAuthSessionVerify (some labCtx) epoch (some c) (some edgePrincipalClear)
          = if PartsFit payB64 sigB64
            then edgeAuthSessionVerify (some labCtx) epoch (some c) (some edgePrincipalClear)
            else some (-1, some edgePrincipalClear)) ∧
    edgeAuthSessionVerify (some labCtx) epoch (some (bytes "QQ.QQ")) (some edgePrincipalClear)
      = some (-1, some edgePrincipalClear) ∧
    (b64Encode [251] 5 true = some (bytes "+w") ↔ CanonicalUrl (bytes "+w")) := by
  obtain ⟨c, p, hissue⟩ := exists_issued labCtx epoch (some (bytes "lab"))
    EdgeRole.employee.bit (by decide) (by decide)
  obtain ⟨payload, sig, hc, -, -⟩ := exists_cookieBytes hissue
  have hqq : CookieBytes (bytes "QQ.QQ") (bytes "QQ") (bytes "QQ") [65] [65] :=
    ⟨by decide, by decide, by decide +kernel, by decide +kernel⟩
  have hmac : [65] ≠ hmacSha256 labCtx.hmacKey [65] := fun h => by
    have hlen := congrArg List.length h
    rw [length_hmacSha256] at hlen
    exact absurd hlen (by decide)
  exact ⟨⟨c, p, hissue, _, _, partsFit_issued hissue hc,
      respelled_cookie.1 _ _ _ _ _ _ _ hissue _ _ _ _ hc _ _ _ hc labCtx epoch edgePrincipalClear⟩,
    respelled_cookie.2.1 _ _ _ _ _ hqq labCtx epoch edgePrincipalClear hmac,
    respelled_cookie.2.2 (bytes "+w") [251] 1 5 (by decide +kernel) (by decide)⟩

/-- Padding behind an issued cookie changes neither its bytes nor the verdict. -/
theorem exists_respelled {ctx : EdgeAuthCtx} {clock : Clock} {sub : Option Bytes} {roles : UInt32}
    {cookieValSz : ℕ} {c : Bytes} {p : EdgePrincipal}
    (hissue : edgeAuthSessionIssue (some ctx) clock sub roles cookieValSz = some (c, p)) :
    ∃ payB64 sigB64 sigB64' payload sig, CookieBytes c payB64 sigB64 payload sig ∧
      CookieBytes (c ++ [b64Pad]) payB64 sigB64' payload sig ∧ PartsFit payB64 sigB64' := by
  obtain ⟨payload, sig, hc, hpay, hsig⟩ := exists_cookieBytes hissue
  have hpaylen := length_b64Digits payload
  have hsiglen := length_b64Digits sig
  have hpad : CookieBytes (c ++ [b64Pad]) ((b64Digits payload).map b64UrlDigit)
      ((b64Digits sig).map b64UrlDigit ++ List.replicate 1 b64Pad) payload sig := by
    refine ⟨by rw [hc.parts, List.append_assoc]; rfl, hc.first, hc.payload, ?_⟩
    refine b64Decode_digits b64DecodeChar_urlDigit hsig.le 1 ?_
    rw [List.length_append, List.length_map, List.length_replicate]
    omega
  refine ⟨_, _, _, payload, sig, hc, hpad, ?_⟩
  rw [PartsFit, List.length_append, List.length_map, List.length_map, List.length_replicate]
  omega

/-- A cookie that was tampered with is accepted: the one of the subject `lab`, with an `=` behind it. -/
theorem tampered_accepted : ∃ c p,
    edgeAuthSessionIssue (some labCtx) epoch (some (bytes "lab")) EdgeRole.employee.bit
      EDGE_AUTH_COOKIE_MAX = some (c, p) ∧
    (∃ payB64 sigB64 sigB64' payload sig, CookieBytes c payB64 sigB64 payload sig ∧
      CookieBytes (c ++ [b64Pad]) payB64 sigB64' payload sig) ∧ c ++ [b64Pad] ≠ c ∧
    edgeAuthSessionVerify (some labCtx) epoch (some (c ++ [b64Pad])) (some edgePrincipalClear)
      = some (0, some p) := by
  obtain ⟨c, p, hissue⟩ := exists_issued labCtx epoch (some (bytes "lab"))
    EdgeRole.employee.bit (by decide) (by decide)
  obtain ⟨payB64, sigB64, sigB64', payload, sig, hc, hpad, hfit⟩ := exists_respelled hissue
  have hsub : PlainSub (bytes "lab") := ⟨by decide, by decide, by decide⟩
  refine ⟨c, p, hissue, ⟨payB64, sigB64, sigB64', payload, sig, hc, hpad⟩, by simp, ?_⟩
  rw [verify_respelled hissue hc hpad labCtx epoch edgePrincipalClear, if_pos hfit,
    edgeAuthSessionVerify_plain hsub (by decide) hissue rfl, if_neg]
  rw [principal_of_issued hissue]
  decide

end Edgehost
