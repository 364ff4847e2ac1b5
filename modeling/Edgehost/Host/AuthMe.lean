import Edgehost.Core.AuthIssued
import Edgehost.Core.AuthProxy
import Edgehost.Host.PluginReplies

/-!
# What `/auth/me` reports

The route writes the subject between quotes as it is, and one of two fixed lists of roles. The verifiers
of cookies and proxy headers produce subjects with any byte but NUL and masks of any of the six roles.

* `reportsPrincipal_iff`: when the text that is written is the object it is meant to be.
* `authMe_iff`: when the route reports the principal of a request.
-/

namespace Edgehost

variable {η P υ : Type*}

/-! ## Principals -/

/-- A principal that one of the two verifiers produces. -/
def Verified (p : EdgePrincipal) : Prop :=
  (∃ ctx clock cookieVal out, edgeAuthSessionVerify ctx clock cookieVal out = some (0, some p)) ∨
    ∃ ctx clock user rolesHdr tsHdr sigHdr out,
      edgeAuthProxyVerify ctx clock user rolesHdr tsHdr sigHdr out = (0, some p)

/-- What the verifiers grant for every principal. -/
structure Presentable (p : EdgePrincipal) : Prop where
  authenticated : p.authenticated = true
  sub_fits : p.sub.length < EDGE_AUTH_SUB_MAX

theorem length_snprintf_lt {cap : ℕ} (hcap : 0 < cap) (text : Bytes) :
    (snprintf cap text).length < cap := by
  have hle := length_snprintf_le cap text
  omega

theorem presentable_of_sessionRead {now : Int64} {json : Bytes} {p : EdgePrincipal}
    (h : sessionRead now json = some (some p)) : Presentable p := by
  simp only [sessionRead, Option.bind_eq_bind, Option.bind_eq_some_iff] at h
  obtain ⟨sub, -, exp, -, -, -, h⟩ := h
  obtain ⟨roles, -, rfl⟩ := Option.map_eq_some_iff.mp (Option.some.inj h)
  exact ⟨rfl, length_snprintf_lt (by decide) _⟩

theorem presentable_of_sessionCheck {ctx : EdgeAuthCtx} {now : Int64} {cookieVal : Bytes}
    {p : EdgePrincipal} (h : sessionCheck ctx now cookieVal = some (some p)) : Presentable p := by
  simp only [sessionCheck, Option.bind_eq_bind, Option.bind_eq_some_iff] at h
  obtain ⟨-, -, dot, -, -, -, -, -, -, -, payload, -, -, -, sig, -, -, -, -, -, h⟩ := h
  exact presentable_of_sessionRead h

theorem presentable_of_proxyCheck {ctx : EdgeAuthCtx} {now : Int64} {user tsHdr sigHdr : Bytes}
    {rolesHdr : Option Bytes} {p : EdgePrincipal}
    (h : proxyCheck ctx now user rolesHdr tsHdr sigHdr = some p) : Presentable p := by
  simp only [proxyCheck, Option.bind_eq_bind, Option.bind_eq_some_iff] at h
  obtain ⟨-, -, -, -, -, -, -, -, -, -, -, -, -, -, canon, -, sig, -, -, -, -, -, h⟩ := h
  obtain rfl := Option.some.inj h
  exact ⟨rfl, length_snprintf_lt (by decide) _⟩

theorem Verified.presentable {p : EdgePrincipal} (h : Verified p) : Presentable p := by
  rcases h with ⟨ctx, clock, cookieVal, out, h⟩ | ⟨ctx, clock, user, rolesHdr, tsHdr, sigHdr, out, h⟩
  · rcases edgeAuthSessionVerify_cases ctx clock cookieVal out with
      ⟨ctx', c, p', -, -, hcheck, heq⟩ | heq
    · obtain ⟨q, rfl, hq⟩ := Option.map_eq_some_iff.mp (heq.symm.trans h)
      obtain rfl := Option.some.inj (Prod.mk.inj hq).2
      exact presentable_of_sessionCheck hcheck
    · exact absurd (Prod.mk.inj (Option.some.inj (heq.symm.trans h))).1 (by decide)
  · rcases edgeAuthProxyVerify_cases ctx clock user rolesHdr tsHdr sigHdr out with
      ⟨ctx', u, ts, sig, p', -, -, -, -, hcheck, heq⟩ | heq
    · obtain rfl := Option.some.inj (Prod.mk.inj (heq.symm.trans h)).2
      exact presentable_of_proxyCheck hcheck
    · exact absurd (Prod.mk.inj (heq.symm.trans h)).1 (by decide)

/-! ## The text -/

/-- The members that the answer is meant to have, with the names of the roles in some order. -/
def principalMembers (p : EdgePrincipal) (names : List Bytes) : List (Bytes × Json) :=
  [(bytes "sub", .str p.sub), (bytes "roles", .arr (names.map .str)),
    (bytes "exp", .num (decimalInt p.exp.toInt))]

/-- The text is one JSON object with the subject, exactly the names of the roles, and the expiry. -/
def ReportsPrincipal (text : Bytes) (p : EdgePrincipal) : Prop :=
  ∃ ms names, jsonParse text = some (.obj ms) ∧ ms.Perm (principalMembers p names) ∧
    names.Perm (roleNames p.roles)

/-- The subject needs no escapes, and the roles are those of an employee, perhaps an admin. -/
def Reportable (p : EdgePrincipal) : Prop :=
  p.sub.all isPlain ∧ edgeAuthRoleHas p.roles .employee ∧
    ∀ r, edgeAuthRoleHas p.roles r → r = .employee ∨ r = .employeeAdmin

/-- The roles that the route shows. -/
def shownRoles (roles : UInt32) : List EdgeRole :=
  if edgeAuthRoleHas roles .employeeAdmin then [.employee, .employeeAdmin] else [.employee]

/-- The text with the punctuation between its parts. -/
def meText (sub roles : Bytes) (exp : ℤ) : Bytes :=
  lbrace :: (quoted (bytes "sub") ++ colon :: (quoted sub ++ comma ::
    (quoted (bytes "roles") ++ colon :: (roles ++ comma ::
      (quoted (bytes "exp") ++ colon :: (decimalInt exp ++ [rbrace]))))))

theorem principalJson_eq (sub roles : Bytes) (exp : Int64) :
    principalJson [] sub roles exp = meText sub (lbracket :: (roles ++ [rbracket])) exp.toInt := by
  simp [principalJson, meText, quoted, bytes, charByte, quoteByte, lbrace, rbrace, lbracket, rbracket,
    comma, colon]

/-- With a plain subject the text is read as its three members. -/
theorem jsonParse_meText {sub roles : Bytes} {v : Json} (hsub : sub.all isPlain)
    (hroles : jsonParse roles = some v) (exp : ℤ) :
    jsonParse (meText sub roles exp) = some (.obj [(bytes "sub", .str sub), (bytes "roles", v),
      (bytes "exp", .num (decimalInt exp))]) := by
  obtain ⟨m, hm⟩ : ∃ m, (meText sub roles exp).length + 3 = m := ⟨_, rfl⟩
  have hlen : (meText sub roles exp).length < m + 2 := by omega
  rw [jsonParse_eq_some_of_fuel hlen]
  obtain ⟨n, rfl⟩ : ∃ n, m = n + 3 := ⟨_, hm.symm⟩
  have htail : (decimalInt exp ++ [rbrace]).length < n + 3 + 1 := by
    simp only [meText, List.length_cons, List.length_append] at hm
    simp only [List.length_append, List.length_singleton]
    omega
  refine ⟨[], ?_, rfl⟩
  have hfit : (roles ++ comma :: (quoted (bytes "exp") ++ colon :: (decimalInt exp ++ [rbrace]))).length
      < n + 3 + 1 := by
    simp only [meText, List.length_cons, List.length_append] at hm ⊢
    omega
  unfold meText
  rw [skipWs_of_not_ws (by decide), readValue_obj, readItems_quoted, readSep_str (by decide) hsub,
    skipWs_quoted, readSep_text (by decide) hroles _ hfit, skipWs_quoted,
    readSep_text_last (by decide) (jsonParse_decimalInt exp) _ htail]
  rfl

/-- A text that is read with the given subject is one with a plain subject. -/
theorem plain_of_jsonParse_meText {sub roles : Bytes} {exp : ℤ} {ms : List (Bytes × Json)}
    (h : jsonParse (meText sub roles exp) = some (.obj ms))
    (hms : ∀ d, (bytes "sub", Json.str d) ∈ ms → d = sub) : sub.all isPlain := by
  obtain ⟨m, hm⟩ : ∃ m, (meText sub roles exp).length = m + 1 := ⟨_, List.length_cons⟩
  have hlen : (meText sub roles exp).length < m + 1 + 1 := by omega
  obtain ⟨r, hread, -⟩ := (jsonParse_eq_some_of_fuel hlen).mp h
  have hne : m ≠ 0 := by
    rintro rfl
    simp [meText, quoted] at hm
  obtain ⟨n, rfl⟩ := Nat.exists_eq_succ_of_ne_zero hne
  rw [meText, skipWs_of_not_ws (by decide), readValue_obj, readItems_quoted,
    Option.map_eq_some_iff] at hread
  obtain ⟨z, hz, heq⟩ := hread
  obtain ⟨hobj, -⟩ := Prod.mk.inj heq
  obtain rfl := Json.obj.inj hobj
  obtain ⟨d, r', hd, hmem⟩ := readSep_head_str (by decide) hz
  obtain rfl := hms d hmem
  refine (readString_splice hd fun b hb => ?_).1
  rw [quoted_append, strBody_cons (by decide) (by decide), strBody_quote] at hb
  obtain ⟨rfl, -⟩ := Prod.mk.inj (Option.some.inj hb)
  exact ⟨[], comma, rfl, (by decide : [comma].all isPlain)⟩

/-! ## The roles -/

/-- The roles as the route writes them. -/
def shownText (roles : UInt32) : Bytes :=
  if edgeAuthRoleHas roles .employeeAdmin then
    quoted (bytes "employee") ++ [comma] ++ quoted (bytes "employee_admin")
  else quoted (bytes "employee")

theorem jsonParse_shownText (roles : UInt32) :
    jsonParse (lbracket :: (shownText roles ++ [rbracket]))
      = some (.arr (((shownRoles roles).map EdgeRole.text).map .str)) := by
  have hjoin : shownText roles = joinNames ((shownRoles roles).map EdgeRole.text) := by
    unfold shownText shownRoles
    split_ifs <;> rfl
  rw [hjoin]
  refine jsonParse_joinNames ?_ fun n hn => ?_
  · unfold shownRoles
    split_ifs <;> exact List.cons_ne_nil _ _
  · obtain ⟨r, -, rfl⟩ := List.mem_map.mp hn
    cases r <;> decide

/-- The shown roles are the roles of a mask exactly for employees, perhaps admins. -/
theorem shownRoles_perm_iff (roles : UInt32) :
    ((shownRoles roles).map EdgeRole.text).Perm (roleNames roles) ↔
      edgeAuthRoleHas roles .employee ∧
        ∀ r, edgeAuthRoleHas roles r → r = .employee ∨ r = .employeeAdmin := by
  constructor
  · intro hperm
    have hmem : ∀ r : EdgeRole, edgeAuthRoleHas roles r ↔ r ∈ shownRoles roles := by
      intro r
      rw [← mem_roleNames, ← hperm.mem_iff, List.mem_map]
      exact ⟨fun ⟨r', hr', heq⟩ => EdgeRole.text_inj.mp heq ▸ hr', fun hr => ⟨r, hr, rfl⟩⟩
    refine ⟨(hmem .employee).mpr ?_, fun r hr => ?_⟩
    · unfold shownRoles
      split_ifs
      · exact List.mem_cons_self
      · exact List.mem_cons_self
    · have hshown := (hmem r).mp hr
      unfold shownRoles at hshown
      split_ifs at hshown
      · simpa using hshown
      · exact .inl (List.mem_singleton.mp hshown)
  · rintro ⟨hemployee, honly⟩
    have hother : ∀ r : EdgeRole, r ≠ .employee → r ≠ .employeeAdmin →
        edgeAuthRoleHas roles r = false := fun r h₁ h₂ =>
      Bool.eq_false_iff.mpr fun h => (honly r h).elim h₁ h₂
    have hnames : roleNames roles = (shownRoles roles).map EdgeRole.text := by
      have hcpe := hother .cpe (by decide) (by decide)
      have hcustomer := hother .customer (by decide) (by decide)
      have hservice := hother .serviceOpenai (by decide) (by decide)
      have hingest := hother .ingest (by decide) (by decide)
      simp only [roleNames, shownRoles, edgeRoles, List.filter_cons, hemployee, hcpe, hcustomer,
        hservice, hingest, List.filter_nil, if_true, Bool.false_eq_true, if_false]
      split_ifs <;> rfl
    rw [hnames]

/-- **When the text is the object it is meant to be.** -/
theorem reportsPrincipal_iff (p : EdgePrincipal) :
    ReportsPrincipal (principalJson [] p.sub (shownText p.roles) p.exp) p ↔ Reportable p := by
  rw [principalJson_eq]
  constructor
  · rintro ⟨ms, names, hms, hperm, hnames⟩
    have hsub : p.sub.all isPlain := by
      refine plain_of_jsonParse_meText hms fun d hd => ?_
      have hmem := hperm.mem_iff.mp hd
      simpa [principalMembers, bytes, charByte] using hmem
    rw [jsonParse_meText hsub (jsonParse_shownText _)] at hms
    obtain rfl := Json.obj.inj (Option.some.inj hms)
    have hroles : (bytes "roles", Json.arr (names.map .str)) ∈ principalMembers p names := by
      simp [principalMembers]
    have hsame : names = (shownRoles p.roles).map EdgeRole.text := by
      have hmem := hperm.mem_iff.mpr hroles
      simp only [List.mem_cons, Prod.mk.injEq, reduceCtorEq, and_false, Json.arr.injEq,
        List.not_mem_nil, or_false, false_or] at hmem
      exact List.map_injective_iff.mpr (fun _ _ => Json.str.inj) hmem.2
    exact ⟨hsub, (shownRoles_perm_iff _).mp (hsame ▸ hnames)⟩
  · rintro ⟨hsub, hroles⟩
    exact ⟨_, (shownRoles p.roles).map EdgeRole.text, jsonParse_meText hsub (jsonParse_shownText _) _,
      .refl _, (shownRoles_perm_iff _).mpr hroles⟩

/-! ## The route -/

/-- The request is answered with status 200 and a text that reports the principal. -/
def MeAnswered (r : Served η P υ) (p : EdgePrincipal) : Prop :=
  ∃ text, r.ret = 1 ∧ ReportsPrincipal text p ∧
    r.out = responseHead 200 (bytes "OK") jsonType [] text.length ++ text

theorem length_shownText_le (roles : UInt32) : (shownText roles).length ≤ 27 := by
  unfold shownText
  split_ifs <;> decide

/-- The length in a header block tells how long the text behind it is. -/
theorem decimal_crlf_inj {n m : ℕ} {a b : Bytes} (h : decimal n ++ (crlf ++ a) = decimal m ++ (crlf ++ b)) :
    n = m := by
  have hcr : ¬isdigit 13 := by decide
  exact decimal_sep_inj hcr hcr h

/-- **A response determines its text.** -/
theorem responseHead_append_inj {status : ℤ} {reason ctype text text' : Bytes}
    (h : responseHead status reason ctype [] text.length ++ text
      = responseHead status reason ctype [] text'.length ++ text') : text = text' := by
  have hlen : text.length = text'.length := by
    simp only [responseHead, List.append_assoc, List.append_cancel_left_eq] at h
    exact decimal_crlf_inj h
  rw [hlen] at h
  exact List.append_cancel_left h

/-- The text of a verified principal fits the buffer of the route. -/
theorem length_principalJson_lt {p : EdgePrincipal} (h : Presentable p) :
    (principalJson [] p.sub (shownText p.roles) p.exp).length < 256 := by
  have hsub : p.sub.length < 64 := h.sub_fits
  have hroles := length_shownText_le p.roles
  have hexp := length_decimalInt_lt p.exp
  have hfixed : (bytes "\x7b").length = 1 ∧ (bytes "\"sub\":").length = 6 ∧
      (bytes ",\"roles\":[").length = 10 ∧ (bytes "],\"exp\":").length = 8 ∧
      (bytes "\x7d").length = 1 := by decide
  simp only [principalJson, quoted, List.length_append, List.length_cons, List.length_nil, hfixed]
  omega

/-- The header block of an answer is short. -/
theorem length_responseHead_ok {len : ℕ} (h : len < 256) :
    (responseHead 200 (bytes "OK") jsonType [] len).length < 128 := by
  have hdigits : (decimal len).length ≤ 3 := by
    rw [decimal, List.length_map, Nat.length_toDigits_le_iff (by decide) (by decide)]
    omega
  have hfixed : (responseHead 200 (bytes "OK") jsonType [] 0).length = 89 := by decide
  have hzero : (decimal 0).length = 1 := by decide
  simp only [responseHead, List.length_append] at hfixed ⊢
  omega

theorem dispatchLabLogin_of_authMe (env : ServeEnv η P υ) {s : EdgeHttp1Serve η}
    (w : ServeWorld P υ) (outCap : ℕ) (hpath : pathIsAuthMe s.path) :
    dispatchLabLogin env s w outCap = none := by
  have hlogin : pathIsLabLogin s.path = false :=
    not_isRoute (prefix_of_isRoute hpath) (by decide) (by decide)
  rw [dispatchLabLogin, hlogin]
  rfl

/-- The answer of the route to a verified principal. -/
theorem dispatch_authMe (env : ServeEnv η P υ) {s : EdgeHttp1Serve η} (w : ServeWorld P υ)
    {outCap : ℕ} (hp : Presentable s.principal) (hpath : pathIsAuthMe s.path)
    (hmethod : s.method = bytes "GET") (hcap : 512 ≤ outCap) :
    let text := principalJson [] s.principal.sub (shownText s.principal.roles) s.principal.exp
    (dispatch env s w outCap).ret = 1 ∧
      (dispatch env s w outCap).out
        = responseHead 200 (bytes "OK") jsonType [] text.length ++ text := by
  intro text
  have htext : text.length < 256 := length_principalJson_lt hp
  have hhead := length_responseHead_ok htext
  have hbuilt : buildResponse outCap 200 (bytes "OK") jsonType text
      = some (responseHead 200 (bytes "OK") jsonType [] text.length ++ text) := by
    rw [buildResponse_eq (by omega), if_pos (by omega)]
  have hroute : dispatchAuthMe s w outCap = some (answer s w outCap 200 (bytes "OK") jsonType text) := by
    unfold dispatchAuthMe
    rw [hpath, hmethod, hp.authenticated, if_neg (by decide), if_neg (by decide), if_neg (by decide)]
    exact if_neg (Nat.not_le.mpr htext)
  have hanswer : answer s w outCap 200 (bytes "OK") jsonType text
      = ⟨s, { w with metrics := noteResponse w.metrics 200 }, 1,
        responseHead 200 (bytes "OK") jsonType [] text.length ++ text⟩ := by
    unfold answer answerEx
    rw [buildResponse] at hbuilt
    rw [hbuilt]
  rw [dispatch, dispatchLabLogin_of_authMe env w outCap hpath]
  dsimp only
  rw [hroute, hanswer]
  exact ⟨rfl, rfl⟩

/-- **When `/auth/me` reports the principal.** For every principal that a verifier produces, the route
answers with the object that is meant exactly when the subject needs no escapes and the roles are those
of an employee, perhaps an admin. -/
theorem authMe_iff (env : ServeEnv η P υ) {s : EdgeHttp1Serve η} (w : ServeWorld P υ) {outCap : ℕ}
    (hp : Verified s.principal) (hpath : pathIsAuthMe s.path) (hmethod : s.method = bytes "GET")
    (hcap : 512 ≤ outCap) :
    MeAnswered (dispatch env s w outCap) s.principal ↔ Reportable s.principal := by
  obtain ⟨hret, hout⟩ := dispatch_authMe env w hp.presentable hpath hmethod hcap
  rw [← reportsPrincipal_iff]
  constructor
  · rintro ⟨text, -, hreports, htext⟩
    rwa [responseHead_append_inj (htext.symm.trans hout)] at hreports
  · intro hreports
    exact ⟨_, hret, hreports, hout⟩

/-! ### Principals of a lab setup -/

/-- A principal that a cookie of the lab setup names. -/
def labSession (roles : UInt32) : EdgePrincipal :=
  issuedPrincipal labCtx epoch (some (bytes "lab")) roles

theorem verified_labSession {roles : UInt32} (hroles : roles < 64)
    (hlen : (issuedPayload labCtx epoch (some (bytes "lab")) roles).length < 256) :
    Verified (labSession roles) := by
  obtain ⟨c, p, hissue⟩ := exists_issued labCtx epoch (some (bytes "lab")) roles (by decide) hlen
  have hsub : PlainSub (bytes "lab") := ⟨by decide, by decide, by decide⟩
  have hverify := edgeAuthSessionVerify_plain hsub hroles hissue rfl epoch edgePrincipalClear
  obtain rfl := principal_of_issued hissue
  have hexp : (issuedPrincipal labCtx epoch (some (bytes "lab")) roles).exp
      = sessionExp labCtx epoch := rfl
  rw [hexp, if_neg (by decide)] at hverify
  exact .inl ⟨_, _, _, _, hverify⟩

/-- A request for `/auth/me` by this principal. -/
def meServe (p : EdgePrincipal) : EdgeHttp1Serve Unit :=
  { freshServe with
    method := bytes "GET"
    path := bytes "/auth/me"
    headersDone := true
    principal := p }

theorem authMe_employee :
    MeAnswered (dispatch (replyingEnv []) (meServe (labSession EdgeRole.employee.bit)) replyingWorld 512)
        (labSession EdgeRole.employee.bit) ↔ Reportable (labSession EdgeRole.employee.bit) :=
  authMe_iff (replyingEnv []) (s := meServe (labSession EdgeRole.employee.bit)) replyingWorld
    (verified_labSession (by decide) (by decide)) (by decide) rfl (Nat.le_refl 512)

/-- A device of a customer is told that it is an employee. -/
theorem not_authMe_cpe :
    ¬ ∀ (s : EdgeHttp1Serve Unit) (outCap : ℕ), Verified s.principal → pathIsAuthMe s.path →
      s.method = bytes "GET" → 512 ≤ outCap →
      MeAnswered (dispatch (replyingEnv []) s replyingWorld outCap) s.principal := by
  intro hall
  have hverified : Verified (labSession EdgeRole.cpe.bit) :=
    verified_labSession (by decide) (by decide)
  obtain ⟨text, -, hreports, hout⟩ :=
    hall (meServe (labSession EdgeRole.cpe.bit)) 512 hverified (by decide) rfl (Nat.le_refl 512)
  have hdispatch := dispatch_authMe (replyingEnv []) (s := meServe (labSession EdgeRole.cpe.bit))
    replyingWorld hverified.presentable (by decide) rfl (Nat.le_refl 512)
  rw [responseHead_append_inj (hout.symm.trans hdispatch.2)] at hreports
  have hemployee := ((reportsPrincipal_iff _).mp hreports).2.1
  exact absurd hemployee (by decide)

end Edgehost
