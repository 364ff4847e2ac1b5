import Edgehost.Core.AuthVerify

/-!
# The signature of proxy headers

Signer and verifier build one canonical text from the timestamp, the user and the roles, joined by
newlines without lengths or escapes.

* `proxyCheck_eq_some_iff` is the whole verifier as one condition.
* `proxyCanonical_injective` says that a text the verifier accepts is the canonical text of no other
  headers that the signer signs: the timestamp of a signer has no newline, and the verifier lets none
  into the user and the roles.
* `proxyRoundTrip_iff` says when what was signed is accepted inside the window and nowhere else: the
  expiry must fit its type.
-/

namespace Edgehost

/-- The roles that stand in the canonical text. -/
def effectiveRoles : Option Bytes → Bytes
  | none | some [] => bytes "employee"
  | some roles => roles

/-- The checks of `edge_auth_proxy_verify` on the text of the headers. -/
structure ProxySyntax (user : Bytes) (rolesHdr : Option Bytes) (tsHdr : Bytes) : Prop where
  user_ne : user ≠ []
  user_short : user.length < EDGE_AUTH_SUB_MAX
  user_plain : hasControl user = false
  roles_plain : hasControl (effectiveRoles rolesHdr) = false
  ts_read : (strtoll tsHdr).2 ≠ tsHdr ∧ (strtoll tsHdr).2 = []
  ts_pos : 0 < (strtoll tsHdr).1

/-- The text that both sides sign. -/
def canonicalText (user roles ts : Bytes) : Bytes :=
  bytes "v1\n" ++ ts ++ bytes "\n" ++ user ++ bytes "\n" ++ roles

/-- The principal of accepted headers. -/
def proxyPrincipal (ctx : EdgeAuthCtx) (user roles : Bytes) (ts : ℤ) : EdgePrincipal where
  authenticated := true
  sub := user
  roles := edgeAuthRolesFromCsv (some roles)
  exp := Int64.ofInt ts + Int64.ofNat (proxySkew ctx)

/-! ## The canonical text -/

/-- Building the canonical text fails for an empty user or timestamp, or where it does not fit. -/
theorem edgeAuthProxyCanonical_eq_some_iff {user ts canon : Bytes} {roles : Option Bytes} :
    edgeAuthProxyCanonical (some user) roles (some ts) 256 = some canon ↔
      user ≠ [] ∧ ts ≠ [] ∧ canon.length < 256 ∧
        canonicalText user (effectiveRoles roles) ts = canon := by
  have hguards : ∀ text : Bytes,
      (∃ _ : Unit, ¬ (user = [] ∨ ts = [] ∨ 256 < 8) ∧ ∃ _ : Unit, ¬ text.length ≥ 256 ∧ text = canon) ↔
        user ≠ [] ∧ ts ≠ [] ∧ canon.length < 256 ∧ text = canon := by
    intro text
    constructor
    · rintro ⟨-, hne, -, hlen, rfl⟩
      rw [not_or, not_or] at hne
      exact ⟨hne.1, hne.2.1, by omega, rfl⟩
    · rintro ⟨huser, hts, hlen, rfl⟩
      exact ⟨(), by simp [huser, hts], (), by omega, rfl⟩
  rcases roles with _ | _ | ⟨c, cs⟩ <;>
    simp only [edgeAuthProxyCanonical, Option.bind_eq_bind, Option.bind_some,
      Option.bind_eq_some_iff, Option.guard_eq_some', Option.some.injEq, effectiveRoles,
      canonicalText, hguards]

theorem edgeAuthProxyCanonical_effective (user ts : Bytes) (roles : Option Bytes) :
    edgeAuthProxyCanonical (some user) (some (effectiveRoles roles)) (some ts) 256
      = edgeAuthProxyCanonical (some user) roles (some ts) 256 := by
  rcases roles with _ | _ | ⟨c, cs⟩ <;> rfl

/-- A text before a newline is determined when it holds no newline itself. -/
private theorem append_newline_inj {c : UInt8} {a b x y : Bytes} (ha : c ∉ a)
    (hb : ∀ s, b = a ++ c :: s → False) (h : b ++ c :: x = a ++ c :: y) : b = a ∧ x = y := by
  rcases List.append_eq_append_iff.mp h with ⟨as, rfl, has⟩ | ⟨bs, rfl, hbs⟩
  · cases as with
    | nil => simpa using has
    | cons d as =>
      obtain ⟨rfl, -⟩ := List.cons_eq_cons.mp has
      simp at ha
  · cases bs with
    | nil => simpa using hbs.symm
    | cons d bs =>
      obtain ⟨rfl, -⟩ := List.cons_eq_cons.mp hbs
      exact absurd rfl (hb bs)

theorem newline_not_mem {s : Bytes} (h : hasControl s = false) : charByte '\n' ∉ s := by
  intro hmem
  rw [hasControl, List.any_eq_false] at h
  exact h _ hmem (by decide)

/-- The decimal form of a 64-bit number fits the signer's buffer. -/
theorem length_decimalInt_lt (v : Int64) : (decimalInt v.toInt).length < 32 := by
  have hdigits : ∀ n : ℕ, n < 2 ^ 64 → (decimal n).length ≤ 20 := fun n hn => by
    rw [decimal, List.length_map, Nat.length_toDigits_le_iff (by decide) (by decide)]
    omega
  have hlo := Int64.le_toInt v
  have hhi := Int64.toInt_lt v
  cases hv : v.toInt with
  | ofNat n =>
    have hn := hdigits n (by rw [hv, Int.ofNat_eq_natCast] at hhi; omega)
    exact Nat.lt_of_le_of_lt hn (by decide)
  | negSucc n =>
    have hn := hdigits (n + 1) (by rw [hv, Int.negSucc_eq] at hlo; omega)
    rw [decimalInt, List.length_cons]
    omega

/-- **No canonical text belongs to two sets of headers**, one accepted by the verifier and one signed
by the signer. -/
theorem proxyCanonical_injective {user tsHdr : Bytes} {rolesHdr : Option Bytes}
    (hproxy : ProxySyntax user rolesHdr tsHdr) (user' : Bytes) (roles' : Option Bytes) (ts' : Int64)
    (canon : Bytes)
    (hverify : edgeAuthProxyCanonical (some user) (some (effectiveRoles rolesHdr)) (some tsHdr) 256
      = some canon)
    (hsign : edgeAuthProxyCanonical (some user') roles'
      (some (snprintf 32 (decimalInt ts'.toInt))) 256 = some canon) :
    user = user' ∧ effectiveRoles rolesHdr = effectiveRoles roles' ∧
      tsHdr = decimalInt ts'.toInt := by
  rw [edgeAuthProxyCanonical_effective] at hverify
  rw [snprintf_of_fits (length_decimalInt_lt ts')] at hsign
  obtain ⟨-, -, -, hv⟩ := edgeAuthProxyCanonical_eq_some_iff.mp hverify
  obtain ⟨-, -, -, hs⟩ := edgeAuthProxyCanonical_eq_some_iff.mp hsign
  have heq : tsHdr ++ charByte '\n' :: (user ++ charByte '\n' :: effectiveRoles rolesHdr)
      = decimalInt ts'.toInt ++ charByte '\n' :: (user' ++ charByte '\n' :: effectiveRoles roles') := by
    have htext := hv.trans hs.symm
    simp only [canonicalText, List.append_assoc] at htext
    exact List.append_cancel_left htext
  -- The signer's timestamp holds no newline, and `strtoll` reads no numeral across one.
  obtain ⟨hts, hrest⟩ := append_newline_inj
    (fun hmem => (mem_decimalInt hmem).elim (fun h => absurd h (by decide))
      (fun h => absurd h (by decide)))
    (fun s hts => by
      have hread := strtoll_decimalInt (Int64.le_toInt ts') (Int64.toInt_lt ts')
        (show ¬ isdigit (charByte '\n') by decide) s
      rw [← hts] at hread
      exact absurd ((congrArg Prod.snd hread).symm.trans hproxy.ts_read.2) (by simp)) heq
  obtain ⟨huser, hroles⟩ := append_newline_inj (newline_not_mem hproxy.user_plain)
    (fun s hs => by
      rw [hs, List.append_assoc] at hrest
      have htail := List.append_cancel_left hrest
      rw [List.cons_append, List.cons_inj_right] at htail
      exact newline_not_mem hproxy.roles_plain (by rw [htail]; simp)) hrest.symm
  exact ⟨huser.symm, hroles.symm, hts⟩

theorem proxyCanonical_injective_alice :
    ∃ canon, ProxySyntax (bytes "alice") none (bytes "1700000000") ∧
      edgeAuthProxyCanonical (some (bytes "alice")) (some (effectiveRoles none))
        (some (bytes "1700000000")) 256 = some canon ∧
      bytes "1700000000" = decimalInt (Int64.toInt 1700000000) := by
  have hproxy : ProxySyntax (bytes "alice") none (bytes "1700000000") :=
    ⟨by decide, by decide, by decide, by decide, by decide, by decide⟩
  refine ⟨_, hproxy, rfl, ?_⟩
  exact (proxyCanonical_injective hproxy (bytes "alice") none 1700000000 _ rfl (by decide)).2.2

/-! ## Accepting and rejecting -/

theorem effectiveRoles_ne_nil (roles : Option Bytes) : effectiveRoles roles ≠ [] := by
  rcases roles with _ | _ | ⟨c, cs⟩
  · show bytes "employee" ≠ []
    decide
  · show bytes "employee" ≠ []
    decide
  · exact List.cons_ne_nil c cs

theorem proxyCheck_effective (ctx : EdgeAuthCtx) (now : Int64) (user : Bytes)
    (rolesHdr : Option Bytes) (tsHdr sigHdr : Bytes) :
    proxyCheck ctx now user rolesHdr tsHdr sigHdr
      = proxyCheck ctx now user (some (effectiveRoles rolesHdr)) tsHdr sigHdr := by
  rcases rolesHdr with _ | _ | ⟨c, cs⟩ <;> rfl

/-- The configured window as the code computes it. -/
theorem toNat_maxSkew (ctx : EdgeAuthCtx) :
    (if ctx.proxyMaxSkewS ≠ 0 then ctx.proxyMaxSkewS else 300 : UInt32).toNat = proxySkew ctx := by
  rw [proxySkew]
  split <;> rfl

theorem proxySkew_lt (ctx : EdgeAuthCtx) : proxySkew ctx < 2 ^ 32 := by
  rw [← toNat_maxSkew]
  exact UInt32.toNat_lt _

/-- The comparison with the window is one of integers. -/
theorem not_skew_gt_iff {ctx : EdgeAuthCtx} {now ts : Int64} (hnow : 0 ≤ now.toInt)
    (hts : 0 < ts.toInt) :
    ¬ (if now > ts then now - ts else ts - now) > Int64.ofNat (proxySkew ctx) ↔
      |now.toInt - ts.toInt| ≤ proxySkew ctx := by
  have hlt := proxySkew_lt ctx
  rw [gt_iff_lt, Int64.not_lt, Int64.le_iff_toInt_le, toInt_skew hnow hts,
    Int64.toInt_ofNat_of_lt (by omega)]

/-- **The verifier as one condition**: the headers are well formed, the timestamp is in the window,
and the signature is the MAC of the canonical text. -/
theorem proxyCheck_eq_some_iff {ctx : EdgeAuthCtx} {clock : Clock} {user tsHdr sigHdr : Bytes}
    {rolesHdr : Option Bytes} {p : EdgePrincipal} :
    proxyCheck ctx (edgeAuthNowSec ctx clock) user rolesHdr tsHdr sigHdr = some p ↔
      ctx.proxyHmacKey ≠ [] ∧ ProxySyntax user rolesHdr tsHdr ∧
        |(edgeAuthNowSec ctx clock).toInt - (strtoll tsHdr).1| ≤ proxySkew ctx ∧
        ∃ canon, edgeAuthProxyCanonical (some user) rolesHdr (some tsHdr) 256 = some canon ∧
          b64Decode sigHdr 32 = some (hmacSha256 ctx.proxyHmacKey canon) ∧
          p = proxyPrincipal ctx user (effectiveRoles rolesHdr) (strtoll tsHdr).1 := by
  obtain ⟨hlo, hhi⟩ := strtoll_bounds tsHdr
  have hval : (Int64.ofInt (strtoll tsHdr).1).toInt = (strtoll tsHdr).1 :=
    Int64.toInt_ofInt_of_le hlo hhi
  have hpos : ¬ Int64.ofInt (strtoll tsHdr).1 ≤ 0 ↔ 0 < (strtoll tsHdr).1 := by
    rw [Int64.not_le, Int64.lt_iff_toInt_lt, hval]
    rfl
  have hnow := edgeAuthNowSec_nonneg ctx clock
  -- The names of the principal fit, so the copy is the whole user.
  have hprincipal : ∀ roles, user.length < EDGE_AUTH_SUB_MAX →
      ({ authenticated := true, sub := snprintf EDGE_AUTH_SUB_MAX user,
         roles := edgeAuthRolesFromCsv (some roles),
         exp := Int64.ofInt (strtoll tsHdr).1 + Int64.ofNat (proxySkew ctx) } : EdgePrincipal)
        = proxyPrincipal ctx user roles (strtoll tsHdr).1 := fun roles hlen => by
    rw [snprintf_of_fits hlen]
    rfl
  rw [proxyCheck_effective, ← edgeAuthProxyCanonical_effective]
  obtain ⟨c, cs, hcons⟩ := List.exists_cons_of_ne_nil (effectiveRoles_ne_nil rolesHdr)
  simp only [proxyCheck, hcons, Option.bind_eq_bind, Option.bind_eq_some_iff, Option.guard_eq_some',
    toNat_maxSkew]
  constructor
  · rintro ⟨-, huser, -, hkey, -, hshort, -, hplain, -, hroles, -, hts, -, hskew, canon, hcanon, sig,
      hsig, -, hlen, -, hmac, hp⟩
    rw [not_or, not_or, not_ne_iff, hpos] at hts
    rw [not_skew_gt_iff hnow (hval.symm ▸ hts.2.2), hval] at hskew
    rw [not_ne_iff] at hlen
    obtain rfl := (ctEq_iff (length_hmacSha256 _ _) hlen).mp hmac
    have hshort : user.length < EDGE_AUTH_SUB_MAX := Nat.lt_of_not_le hshort
    refine ⟨fun h => hkey (List.length_eq_zero_iff.mpr h), ⟨huser, hshort, by simpa using hplain, ?_,
      ⟨hts.1, hts.2.1⟩, hts.2.2⟩, hskew, canon, hcanon, hsig, ?_⟩
    · rw [hcons]
      simpa using hroles
    · rw [← hprincipal _ hshort]
      exact (Option.some.inj hp).symm
  · rintro ⟨hkey, hproxy, hskew, canon, hcanon, hsig, rfl⟩
    have hroles := hproxy.roles_plain
    rw [hcons] at hroles
    refine ⟨(), hproxy.user_ne, (), fun h => hkey (List.length_eq_zero_iff.mp h), (),
      Nat.not_le.mpr hproxy.user_short, (), by simp [hproxy.user_plain], (), by simp [hroles], (), ?_,
      (), ?_, canon, hcanon, _, hsig, (), ?_, (), (ctEq_iff (length_hmacSha256 _ _)
        (length_hmacSha256 _ _)).mpr rfl, ?_⟩
    · rw [not_or, not_or, not_ne_iff, hpos]
      exact ⟨hproxy.ts_read.1, hproxy.ts_read.2, hproxy.ts_pos⟩
    · rw [not_skew_gt_iff hnow (hval.symm ▸ hproxy.ts_pos), hval]
      exact hskew
    · exact not_not.mpr (length_hmacSha256 _ _)
    · rw [← hprincipal _ hproxy.user_short]

/-! ## Signing and verifying -/

/-- `strtoll` reads the whole of what `%lld` writes. -/
theorem strtoll_decimalInt_end (v : Int64) : strtoll (decimalInt v.toInt) = (v.toInt, []) := by
  have hread := strtoll_decimalInt_tail (Int64.le_toInt v) (Int64.toInt_lt v) (Or.inl (Eq.refl []))
  rwa [List.append_nil] at hread

/-- **What signing does**: with a key and a canonical text that fits, it encodes the MAC. -/
theorem edgeAuthProxySign_eq {ctx : EdgeAuthCtx} {user : Bytes} {roles : Option Bytes} {ts : Int64}
    {canon : Bytes} {sigOutSz : ℕ} (hkey : ctx.proxyHmacKey ≠ [])
    (hcanon : edgeAuthProxyCanonical (some user) roles (some (decimalInt ts.toInt)) 256 = some canon)
    (hsz : 45 ≤ sigOutSz) :
    edgeAuthProxySign ctx (some user) roles ts sigOutSz
      = some ((b64Digits (hmacSha256 ctx.proxyHmacKey canon)).map b64UrlDigit) := by
  have hkey : ¬ ctx.proxyHmacKey.length = 0 := fun h => hkey (List.length_eq_zero_iff.mp h)
  unfold edgeAuthProxySign
  rw [snprintf_of_fits (length_decimalInt_lt ts), hcanon, guard, if_pos hkey]
  exact b64Encode_url (by rw [length_hmacSha256]; exact hsz)

/-- Decoding the encoded MAC. -/
theorem b64Decode_mac (key text : Bytes) :
    b64Decode ((b64Digits (hmacSha256 key text)).map b64UrlDigit) 32 = some (hmacSha256 key text) := by
  have hmac := length_hmacSha256 key text
  have hlen := length_b64Digits (hmacSha256 key text)
  exact b64Decode_url hmac.le (by omega)

/-- A signature is accepted at every clock value in the window around its timestamp, for the principal
it was made for, and rejected at every other one. -/
def ProxyRoundTrip (ctx : EdgeAuthCtx) (user : Bytes) (roles : Option Bytes) (ts : Int64)
    (sig : Bytes) : Prop :=
  ∀ (override : Int64) (clock : Clock) (out : EdgePrincipal),
    let ctx' := { ctx with nowSecOverride := override }
    let now := (edgeAuthNowSec ctx' clock).toInt
    let r := edgeAuthProxyVerify (some ctx') clock (some user) roles (some (decimalInt ts.toInt))
      (some sig) (some out)
    (|now - ts.toInt| ≤ proxySkew ctx → ∃ p, r = (0, some p) ∧ p.authenticated = true ∧ p.sub = user ∧
      p.roles = edgeAuthRolesFromCsv (some (effectiveRoles roles)) ∧
      p.exp.toInt = ts.toInt + proxySkew ctx) ∧
    (proxySkew ctx < |now - ts.toInt| → r.1 = -1)

/-- The expiry is exact where it fits its type. -/
theorem toInt_proxyPrincipal_exp {ctx : EdgeAuthCtx} {ts : Int64} (user roles : Bytes)
    (hts : 0 < ts.toInt) (hfits : ts.toInt + proxySkew ctx < 2 ^ 63) :
    (proxyPrincipal ctx user roles ts.toInt).exp.toInt = ts.toInt + proxySkew ctx := by
  have hskew : (Int64.ofNat (proxySkew ctx)).toInt = proxySkew ctx :=
    Int64.toInt_ofNat_of_lt (Nat.lt_trans (proxySkew_lt ctx) (by decide))
  show (Int64.ofInt ts.toInt + Int64.ofNat (proxySkew ctx)).toInt = _
  rw [Int64.ofInt_toInt, Int64.toInt_add, hskew, Int.bmod_eq_of_le (by omega) (by omega)]

/-- At the clock value of the timestamp itself the signature is accepted, so the expiry fits. -/
theorem ProxyRoundTrip.exp_fits {ctx : EdgeAuthCtx} {user sig : Bytes} {roles : Option Bytes}
    {ts : Int64} (h : ProxyRoundTrip ctx user roles ts sig) (hts : 0 < ts) :
    ts.toInt + proxySkew ctx < 2 ^ 63 := by
  have hnow : edgeAuthNowSec { ctx with nowSecOverride := ts } ⟨0, by decide⟩ = ts := if_pos hts
  obtain ⟨p, -, -, -, -, hexp⟩ := (h ts ⟨0, by decide⟩ edgePrincipalClear).1 (by
    rw [hnow]
    simp)
  rw [← hexp]
  exact Int64.toInt_lt _

/-- **When signatures of proxy headers work as meant.** For every key, user, roles and timestamp whose
canonical text fits, the signature is accepted in the window with the right principal and rejected
outside exactly when the expiry fits its type. -/
theorem proxyRoundTrip_iff (ctx : EdgeAuthCtx) (user : Bytes) (roles : Option Bytes) (ts : Int64)
    (sigOutSz : ℕ) (hkey : 1 ≤ ctx.proxyHmacKey.length ∧ ctx.proxyHmacKey.length ≤ 64)
    (huser : 1 ≤ user.length ∧ user.length ≤ 63)
    (hplain : hasControl user = false ∧ hasControl (roles.getD []) = false)
    (hfits : (canonicalText user (effectiveRoles roles) (decimalInt ts.toInt)).length < 256)
    (hts : 0 < ts) (hsz : 45 ≤ sigOutSz) :
    ∃ sig, edgeAuthProxySign ctx (some user) roles ts sigOutSz = some sig ∧
      (ProxyRoundTrip ctx user roles ts sig ↔ ts.toInt + proxySkew ctx < 2 ^ 63) := by
  have hts' : 0 < ts.toInt := Int64.lt_iff_toInt_lt.mp hts
  have hkey : ctx.proxyHmacKey ≠ [] := List.length_pos_iff.mp hkey.1
  have huserne : user ≠ [] := List.length_pos_iff.mp huser.1
  have hcanon : edgeAuthProxyCanonical (some user) roles (some (decimalInt ts.toInt)) 256
      = some (canonicalText user (effectiveRoles roles) (decimalInt ts.toInt)) :=
    edgeAuthProxyCanonical_eq_some_iff.mpr ⟨huserne, decimalInt_ne_nil _, hfits, rfl⟩
  have hproxy : ProxySyntax user roles (decimalInt ts.toInt) :=
    { user_ne := huserne
      user_short := Nat.lt_succ_of_le huser.2
      user_plain := hplain.1
      roles_plain := by
        rcases roles with _ | _ | ⟨c, cs⟩
        · decide
        · decide
        · exact hplain.2
      ts_read := by
        rw [strtoll_decimalInt_end]
        exact ⟨(decimalInt_ne_nil _).symm, rfl⟩
      ts_pos := by
        rw [strtoll_decimalInt_end]
        exact hts' }
  -- The sum of the time and the window is what can overflow.
  refine ⟨_, edgeAuthProxySign_eq hkey hcanon hsz, fun h => h.exp_fits hts, fun hover => ?_⟩
  · intro override clock out ctx' now r
    have hcheck := fun p => @proxyCheck_eq_some_iff ctx' clock user (decimalInt ts.toInt)
      ((b64Digits (hmacSha256 ctx.proxyHmacKey
        (canonicalText user (effectiveRoles roles) (decimalInt ts.toInt)))).map b64UrlDigit) roles p
    simp only [strtoll_decimalInt_end] at hcheck
    constructor
    · intro hwindow
      have hsome := (hcheck (proxyPrincipal ctx' user (effectiveRoles roles) ts.toInt)).mpr
        ⟨hkey, hproxy, hwindow, _, hcanon, b64Decode_mac _ _, rfl⟩
      refine ⟨_, ?_, rfl, rfl, rfl, toInt_proxyPrincipal_exp user _ hts' hover⟩
      show edgeAuthProxyVerify (some ctx') clock (some user) roles _ _ _ = _
      simp only [edgeAuthProxyVerify, Option.map_some]
      rw [hsome]
      rfl
    · intro hout
      rcases edgeAuthProxyVerify_cases (some ctx') clock (some user) roles
          (some (decimalInt ts.toInt)) (some ((b64Digits (hmacSha256 ctx.proxyHmacKey
            (canonicalText user (effectiveRoles roles) (decimalInt ts.toInt)))).map b64UrlDigit))
          (some out) with ⟨ctx'', u, t, sig, p, hc, hu, ht, hs, hp, -⟩ | hfail
      · obtain rfl := Option.some.inj hc
        obtain rfl := Option.some.inj hu
        obtain rfl := Option.some.inj ht
        obtain rfl := Option.some.inj hs
        obtain ⟨-, -, hwindow, -⟩ := (hcheck p).mp hp
        exact absurd hout (not_lt.mpr hwindow)
      · exact congrArg Prod.fst hfail

/-- A context with the proxy key `proxy-secret` and a window of one minute. -/
def proxyLab : EdgeAuthCtx :=
  { edgeAuthCtxInit with
    mode := .modeProxyHeaders
    proxyHmacKey := bytes "proxy-secret"
    proxyMaxSkewS := 60 }

theorem proxyRoundTrip_alice :
    ∃ sig, edgeAuthProxySign proxyLab (some (bytes "alice")) none 1700000000 64 = some sig ∧
      ProxyRoundTrip proxyLab (bytes "alice") none 1700000000 sig := by
  obtain ⟨sig, hsign, hiff⟩ := proxyRoundTrip_iff proxyLab (bytes "alice") none 1700000000 64
    (by decide) (by decide) (by decide) (by decide) (by decide) (by decide)
  exact ⟨sig, hsign, hiff.mpr (by decide)⟩

/-- At the last timestamp the expiry overflows. -/
theorem not_proxyRoundTrip_last :
    ∃ sig, edgeAuthProxySign proxyLab (some (bytes "alice")) none 9223372036854775807 64 = some sig ∧
      ¬ ProxyRoundTrip proxyLab (bytes "alice") none 9223372036854775807 sig := by
  have hcanon : edgeAuthProxyCanonical (some (bytes "alice")) none
      (some (decimalInt (Int64.toInt 9223372036854775807))) 256
      = some (bytes "v1\n9223372036854775807\nalice\nemployee") := by decide
  refine ⟨_, edgeAuthProxySign_eq (by decide) hcanon (by decide), fun h => ?_⟩
  exact absurd (h.exp_fits (by decide)) (by decide)

end Edgehost
