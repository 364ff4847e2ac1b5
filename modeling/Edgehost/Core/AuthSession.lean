import Edgehost.Core.AuthRbac
import Mathlib.Data.Nat.Bitwise

/-!
# Session cookies

An issued cookie passes the signature check of the verifier under the same key, so that what the
verifier says of it is what `sessionRead` finds in the payload (`sessionCheck_issued`). The payload
has the subject in front, unescaped, and its fields are searched for as text:

* `parseJsonStringField_payload`, `parseJsonInt64Field_payload` and `parseRolesArray_payload` say what
  each search finds, for any subject.
* `sessionRead_plain` puts them together for a subject without quotes and backslashes.
-/

namespace Edgehost

/-! ## Role masks -/

/-- The mask of a set of roles. -/
def rolesMask (has : EdgeRole → Bool) : UInt32 :=
  edgeRoles.foldl (fun roles r => if has r then roles ||| r.bit else roles) 0

@[simp] theorem roleHas_rolesMask (has : EdgeRole → Bool) (r : EdgeRole) :
    edgeAuthRoleHas (rolesMask has) r = has r := by
  simp only [rolesMask, edgeRoles, List.foldl_cons, List.foldl_nil]
  cases r <;> cases has .employee <;> cases has .employeeAdmin <;> cases has .cpe <;>
    cases has .customer <;> cases has .serviceOpenai <;> cases has .ingest <;> rfl

set_option maxRecDepth 4096 in
private theorem rolesMask_ofNat :
    ∀ n < 64, rolesMask (edgeAuthRoleHas (UInt32.ofNat n)) = UInt32.ofNat n := by decide

/-- A mask of the six known bits is the mask of its roles. -/
theorem rolesMask_roleHas {roles : UInt32} (h : roles < 64) :
    rolesMask (edgeAuthRoleHas roles) = roles := by
  have hn := rolesMask_ofNat roles.toNat (UInt32.lt_iff_toNat_lt.mp h)
  rwa [UInt32.ofNat_toNat] at hn

private theorem and_bit (roles : UInt32) (r : EdgeRole) :
    roles &&& r.bit = if edgeAuthRoleHas roles r then r.bit else 0 := by
  obtain ⟨i, hi⟩ : ∃ i, r.bit.toNat = 2 ^ i := by
    cases r
    exacts [⟨0, rfl⟩, ⟨1, rfl⟩, ⟨2, rfl⟩, ⟨3, rfl⟩, ⟨4, rfl⟩, ⟨5, rfl⟩]
  have hand : (roles &&& r.bit).toNat = (roles.toNat.testBit i).toNat * 2 ^ i := by
    rw [UInt32.toNat_and, hi, Nat.and_two_pow]
  by_cases h : roles &&& r.bit = 0
  · simp [edgeAuthRoleHas, h]
  · simp only [edgeAuthRoleHas, ne_eq, h, not_false_eq_true, decide_true, if_true]
    rw [← UInt32.toNat_inj, hand, hi]
    cases hbit : roles.toNat.testBit i
    · rw [hbit, Bool.toNat_false, Nat.zero_mul] at hand
      exact absurd (UInt32.toNat_inj.mp hand) h
    · rw [Bool.toNat_true, Nat.one_mul]

/-- A mask is a subset of another one exactly when its roles are. -/
theorem rolesMask_and (has : EdgeRole → Bool) (roles : UInt32) :
    rolesMask has &&& roles = rolesMask has ↔ ∀ r, has r → edgeAuthRoleHas roles r := by
  refine ⟨fun h r hr => ?_, fun h => ?_⟩
  · by_contra hno
    have hzero : roles &&& r.bit = 0 := by rw [and_bit, if_neg hno]
    have hin : edgeAuthRoleHas (rolesMask has) r := by rw [roleHas_rolesMask, hr]
    rw [← h, edgeAuthRoleHas, UInt32.and_assoc, hzero] at hin
    simp at hin
  · have hfold : ∀ (rs : List EdgeRole) (m : UInt32), m &&& roles = m →
        rs.foldl (fun m r => if has r then m ||| r.bit else m) m &&& roles
          = rs.foldl (fun m r => if has r then m ||| r.bit else m) m := by
      intro rs
      induction rs with
      | nil => exact fun m hm => hm
      | cons r rs ih =>
        intro m hm
        refine ih _ ?_
        dsimp only
        by_cases hr : has r
        · have hbit : r.bit &&& roles = r.bit := by
            rw [UInt32.and_comm, and_bit, if_pos (h r hr)]
          have hdistrib : (m ||| r.bit) &&& roles = m &&& roles ||| r.bit &&& roles :=
            UInt32.toBitVec_inj.mp BitVec.and_or_distrib_right
          rw [if_pos hr, hdistrib, hm, hbit]
        · rw [if_neg hr, hm]
    exact hfold edgeRoles 0 UInt32.zero_and

theorem EdgeRole.text_inj {r r' : EdgeRole} : r.text = r'.text ↔ r = r' := by
  cases r <;> cases r' <;> decide

theorem mem_edgeRoles (r : EdgeRole) : r ∈ edgeRoles := by
  cases r <;> decide

theorem EdgeRole.text_chars (r : EdgeRole) : quoteByte ∉ r.text ∧ charByte ',' ∉ r.text ∧
    charByte ']' ∉ r.text ∧ 0 ∉ r.text := by
  cases r <;> decide

/-! ## The roles array of a payload -/

/-- The names of the roles of a mask. -/
def roleNames (roles : UInt32) : List Bytes :=
  (edgeRoles.filter (edgeAuthRoleHas roles)).map EdgeRole.text

/-- The JSON array that `rolesToJsonArray` writes. -/
def rolesJson (roles : UInt32) : Bytes :=
  charByte '[' :: (joinNames (roleNames roles) ++ [charByte ']'])

theorem mem_roleNames {roles : UInt32} {r : EdgeRole} :
    r.text ∈ roleNames roles ↔ edgeAuthRoleHas roles r := by
  simp [roleNames, EdgeRole.text_inj, mem_edgeRoles]

theorem exists_of_mem_roleNames {roles : UInt32} {n : Bytes} (h : n ∈ roleNames roles) :
    ∃ r : EdgeRole, n = r.text := by
  obtain ⟨r, -, rfl⟩ := List.mem_map.mp h
  exact ⟨r, rfl⟩

theorem length_roleNames_le (roles : UInt32) : (joinNames (roleNames roles)).length ≤ 71 := by
  refine (length_joinNames_le _).trans ?_
  have hsub : (edgeRoles.filter (edgeAuthRoleHas roles)).Sublist edgeRoles := List.filter_sublist
  refine (((hsub.map EdgeRole.text).map fun n => n.length + 3).sum_le_sum fun _ _ => ?_).trans ?_
  · exact Nat.zero_le _
  · decide

theorem rolesToJsonArray_eq (roles : UInt32) : rolesToJsonArray roles 128 = some (rolesJson roles) := by
  have hlen := length_roleNames_le roles
  have htmp : (charByte '[' :: joinNames (roleNames roles)).length + 2 ≤ 128 := by
    rw [List.length_cons]
    omega
  unfold rolesToJsonArray
  rw [← roleNames, if_neg (by omega), if_neg (by omega)]
  rfl

theorem not_mem_rolesJson {c : UInt8} (hq : c ≠ quoteByte) (hcomma : c ≠ charByte ',')
    (hr : ∀ r : EdgeRole, c ∉ r.text) (roles : UInt32) : c ∉ joinNames (roleNames roles) := by
  intro h
  rcases mem_joinNames h with h | h | ⟨n, hn, h⟩
  · exact hq h
  · exact hcomma h
  · obtain ⟨r, rfl⟩ := exists_of_mem_roleNames hn
    exact hr r h

/-- A quoted name occurs in the array exactly when it is one of the names. -/
theorem strstr_rolesJson {x : Bytes} (hx : quoteByte ∉ x) (hcomma : charByte ',' ∉ x)
    (hclose : charByte ']' ∉ x) (roles : UInt32) :
    (strstr (rolesJson roles) (quoted x)).isSome ↔ x ∈ roleNames roles := by
  have hsep : charByte ']' ∉ quoted x := by
    rw [mem_quoted, not_or]
    exact ⟨by decide, hclose⟩
  have hnames : ∀ n ∈ roleNames roles, quoteByte ∉ n := by
    intro n hn
    obtain ⟨r, rfl⟩ := exists_of_mem_roleNames hn
    exact r.text_chars.1
  have hnil : strstr [] (quoted x) = none := if_neg (quoted_ne_nil x)
  have hopen : strstr (rolesJson roles) (quoted x)
      = strstr (joinNames (roleNames roles) ++ [charByte ']']) (quoted x) :=
    strstr_append (a := [charByte '[']) (by decide) _ _
  rw [hopen, strstr_sep (quoted_ne_nil x) hsep, hnil, Option.or_none, Option.isSome_map,
    strstr_joinNames hx hcomma hnames]

/-- Reading the array back gives the roles. -/
theorem rolesNamedIn_rolesJson (roles : UInt32) :
    rolesNamedIn (rolesJson roles) = rolesMask (edgeAuthRoleHas roles) := by
  have hfind : ∀ r : EdgeRole,
      (strstr (rolesJson roles) (quoted r.text)).isSome = edgeAuthRoleHas roles r := by
    intro r
    obtain ⟨hq, hcomma, hclose, -⟩ := r.text_chars
    rw [Bool.eq_iff_iff, strstr_rolesJson hq hcomma hclose, mem_roleNames]
  simp only [rolesNamedIn, rolesMask, hfind]

/-- The text in the first pair of brackets is copied when it fits. -/
theorem rolesBracket_eq {a body : Bytes} (ha : charByte '[' ∉ a) (hbody : charByte ']' ∉ body)
    (s : Bytes) :
    rolesBracket (a ++ charByte '[' :: (body ++ charByte ']' :: s))
      = if body.length ≥ 127 then .empty
        else if body.length = 126 then .overrun
        else .copied (charByte '[' :: (body ++ [charByte ']'])) := by
  have hopen : charByte ']' ∉ charByte '[' :: body := by
    rw [List.mem_cons, not_or]
    exact ⟨by decide, hbody⟩
  have hclose := strchr_append hopen (charByte ']' :: s)
  rw [strchr_cons_self] at hclose
  unfold rolesBracket
  rw [strchr_append ha, strchr_cons_self]
  dsimp only
  rw [← List.cons_append, hclose]
  dsimp only
  rw [List.length_append, Nat.add_sub_cancel, List.length_cons, List.cons_append,
    List.take_succ_cons, List.take_append, List.take_of_length_le (by omega),
    Nat.add_sub_cancel_left]
  by_cases hlen : body.length ≥ 127
  · rw [if_pos (by omega), if_pos hlen]
  · rw [if_neg (by omega), if_neg hlen]
    by_cases hfull : body.length = 126
    · rw [if_pos (by omega), if_pos hfull]
    · rw [if_neg (by omega), if_neg hfull]
      rfl

theorem rolesBracket_rolesJson {a : Bytes} (ha : charByte '[' ∉ a) (roles : UInt32) (s : Bytes) :
    rolesBracket (a ++ (rolesJson roles ++ s)) = .copied (rolesJson roles) := by
  have hbody : charByte ']' ∉ joinNames (roleNames roles) :=
    not_mem_rolesJson (by decide) (by decide) (fun r => r.text_chars.2.2.1) roles
  have hlen := length_roleNames_le roles
  have h := rolesBracket_eq ha hbody s
  rw [if_neg (by omega), if_neg (by omega)] at h
  rw [rolesJson, List.cons_append, List.append_assoc]
  exact h

/-! ## What the searches find in a payload -/

/-- The payload after the subject. -/
def payloadTail (roles : UInt32) (exp : Int64) : Bytes :=
  quoted (bytes "roles") ++ charByte ':' :: (rolesJson roles ++ charByte ',' ::
    (quoted (bytes "exp") ++ charByte ':' :: (decimalInt exp.toInt ++ [charByte '\x7d'])))

theorem sessionPayload_eq (sub : Bytes) (roles : UInt32) (exp : Int64) :
    sessionPayload sub (rolesJson roles) exp = (charByte '\x7b' :: quoted (bytes "sub")) ++
      charByte ':' :: (quoted sub ++ charByte ',' :: payloadTail roles exp) := by
  simp [sessionPayload, payloadTail, bytes, quoted, quoteByte]

/-- Searching a payload for a name that is not `sub`: in the quoted subject first, then behind it. -/
theorem strstr_payload {x : Bytes} (hsep : charByte ':' ∉ quoted x ∧ charByte ',' ∉ quoted x)
    (hx : strstr (charByte '\x7b' :: quoted (bytes "sub")) (quoted x) = none) (sub : Bytes)
    (roles : UInt32) (exp : Int64) :
    strstr (sessionPayload sub (rolesJson roles) exp) (quoted x)
      = ((strstr (quoted sub) (quoted x)).map (· ++ charByte ',' :: payloadTail roles exp)).or
          (strstr (payloadTail roles exp) (quoted x)) := by
  rw [sessionPayload_eq, strstr_sep (quoted_ne_nil x) hsep.1, hx, Option.map_none, Option.none_or,
    strstr_sep (quoted_ne_nil x) hsep.2]

/-- The text taken for the roles array: the subject's, if it has one, before the payload's own. -/
theorem parseRolesArray_payload (sub : Bytes) (roles : UInt32) (exp : Int64) :
    parseRolesArray (sessionPayload sub (rolesJson roles) exp)
      = match strstr (quoted sub) (quoted (bytes "roles")) with
        | none => some (rolesMask (edgeAuthRoleHas roles))
        | some t =>
          match rolesBracket (t ++ charByte ',' :: payloadTail roles exp) with
          | .empty => some 0
          | .copied buf => some (rolesNamedIn buf)
          | .overrun => none := by
  have hown : rolesBracket (payloadTail roles exp) = .copied (rolesJson roles) :=
    rolesBracket_rolesJson (a := quoted (bytes "roles") ++ [charByte ':']) (by decide) roles _
  unfold parseRolesArray
  rw [strstr_payload (by decide) (by decide)]
  cases hfind : strstr (quoted sub) (quoted (bytes "roles")) with
  | some t => rfl
  | none =>
    have htail : strstr (payloadTail roles exp) (quoted (bytes "roles"))
        = some (payloadTail roles exp) := strstr_here (List.prefix_append _ _)
    rw [htail]
    simp only [Option.map_none, Option.none_or, hown, rolesNamedIn_rolesJson]

/-- A comma ends the search for a number, unless the colon is still to come. -/
theorem readJsonInt64_sep (u s : Bytes) : readJsonInt64 (u ++ charByte ',' :: s)
    = if charByte ':' ∈ u then readJsonInt64 u else readJsonInt64 s := by
  unfold readJsonInt64
  by_cases hcolon : charByte ':' ∈ u
  · obtain ⟨w, hw⟩ := Option.ne_none_iff_exists'.mp fun h => strchr_eq_none.mp h hcolon
    obtain ⟨a, b, ha, rfl, rfl⟩ := strchr_eq_some.mp hw
    have happ : strchr ((a ++ charByte ':' :: b) ++ charByte ',' :: s) (charByte ':')
        = some (charByte ':' :: (b ++ charByte ',' :: s)) := by
      rw [List.append_assoc, strchr_append ha]
      exact strchr_cons_self _ _
    have hblank : ¬isBlank (charByte ',') := by decide
    have hnum := strtoll_sep (c := charByte ',') (by decide) (by decide) (by decide)
    rw [if_pos hcolon, hw, happ]
    simp only [List.drop_succ_cons, List.drop_zero, dropWhile_sep hblank, hnum,
      List.append_cancel_right_eq]
  · have hskip : charByte ':' ∉ u ++ [charByte ','] := by
      rw [List.mem_append, not_or]
      exact ⟨hcolon, by decide⟩
    have happ := strchr_append hskip s
    rw [List.append_assoc, List.singleton_append] at happ
    rw [if_neg hcolon, happ]

/-- A printed number reads back. -/
theorem readJsonInt64_decimalInt (v : Int64) (s : Bytes) :
    readJsonInt64 (charByte ':' :: (decimalInt v.toInt ++ charByte '\x7d' :: s)) = some v := by
  have hblank : (decimalInt v.toInt ++ charByte '\x7d' :: s).dropWhile isBlank
      = decimalInt v.toInt ++ charByte '\x7d' :: s := by
    obtain ⟨d, ds, hds⟩ := List.exists_cons_of_ne_nil (decimalInt_ne_nil v.toInt)
    rw [hds, List.cons_append, List.dropWhile_cons_of_neg]
    intro hb
    simp only [isBlank, decide_eq_true_eq] at hb
    rcases mem_decimalInt (hds ▸ List.mem_cons_self : d ∈ decimalInt v.toInt) with h | rfl
    · rcases hb with rfl | rfl
      · exact absurd h (by decide)
      · exact absurd h (by decide)
    · exact absurd hb (by decide)
  have hnum := strtoll_decimalInt v.le_toInt v.toInt_lt (c := charByte '\x7d') (by decide) s
  unfold readJsonInt64
  rw [strchr_cons_self]
  simp only [List.drop_succ_cons, List.drop_zero, hblank, hnum, Int64.ofInt_toInt]
  rw [if_neg]
  intro h
  have hlen := congrArg List.length h
  rw [List.length_append] at hlen
  exact decimalInt_ne_nil v.toInt (List.length_eq_zero_iff.mp (by omega))

/-- No number follows the colon of the roles array. -/
theorem readJsonInt64_payloadTail (roles : UInt32) (exp : Int64) :
    readJsonInt64 (payloadTail roles exp) = none := by
  have hcolon : charByte ':' ∉ quoted (bytes "roles") := by decide
  have hnum : ∀ s, strtoll (charByte '[' :: s) = (0, charByte '[' :: s) :=
    strtoll_sep (by decide) (by decide) (by decide) []
  unfold readJsonInt64 payloadTail
  rw [strchr_append hcolon, strchr_cons_self]
  simp only [List.drop_succ_cons, List.drop_zero, rolesJson, List.cons_append]
  rw [List.dropWhile_cons_of_neg (by decide), hnum]
  exact if_pos rfl

/-- The expiry is the payload's own, unless the subject has a text that looks like its name. -/
theorem parseJsonInt64Field_payload (sub : Bytes) (roles : UInt32) (exp : Int64) :
    parseJsonInt64Field (sessionPayload sub (rolesJson roles) exp) (bytes "exp")
      = if strstr (quoted sub) (quoted (bytes "exp")) = none then some exp
        else parseJsonInt64Field (quoted sub) (bytes "exp") := by
  have hkey : snprintf 80 (quoted (bytes "exp")) = quoted (bytes "exp") := rfl
  unfold parseJsonInt64Field
  simp only [hkey]
  rw [strstr_payload (by decide) (by decide)]
  cases hfind : strstr (quoted sub) (quoted (bytes "exp")) with
  | some t =>
    obtain ⟨⟨u, rfl⟩, -⟩ := strstr_eq_some hfind
    rw [if_neg (Option.some_ne_none _)]
    simp only [Option.map_some, Option.some_or, List.append_assoc, List.drop_left,
      readJsonInt64_sep, readJsonInt64_payloadTail]
    split
    · rfl
    · rename_i hcolon
      rw [readJsonInt64, strchr_eq_none.mpr hcolon]
  | none =>
    have hnil : strstr (rolesJson roles) (quoted (bytes "exp")) = none := by
      rw [← Option.not_isSome_iff_eq_none, strstr_rolesJson (by decide) (by decide) (by decide)]
      intro h
      obtain ⟨r, hr⟩ := exists_of_mem_roleNames h
      cases r <;> exact absurd hr (by decide)
    have hroles : strstr (quoted (bytes "roles")) (quoted (bytes "exp")) = none := by decide
    have htail : strstr (payloadTail roles exp) (quoted (bytes "exp"))
        = some (quoted (bytes "exp") ++
            charByte ':' :: (decimalInt exp.toInt ++ [charByte '\x7d'])) := by
      rw [payloadTail, strstr_sep (quoted_ne_nil _) (by decide), hroles, Option.map_none,
        Option.none_or, strstr_sep (quoted_ne_nil _) (by decide), hnil, Option.map_none,
        Option.none_or, strstr_here (List.prefix_append _ _)]
    rw [htail, if_pos rfl]
    simp only [Option.map_none, Option.none_or, List.drop_left, readJsonInt64_decimalInt]

theorem copyJsonString_quote (n : ℕ) (p : Bytes) :
    copyJsonString n (quoteByte :: p) = ([], quoteByte :: p) := by
  cases n <;> rfl

theorem copyJsonString_escape (n : ℕ) (d : UInt8) (p : Bytes) :
    copyJsonString (n + 1) (charByte '\\' :: d :: p)
      = (d :: (copyJsonString n p).1, (copyJsonString n p).2) := rfl

theorem copyJsonString_cons {c : UInt8} (hq : c ≠ quoteByte) (hb : c ≠ charByte '\\') (n : ℕ)
    (p : Bytes) : copyJsonString (n + 1) (c :: p)
      = (c :: (copyJsonString n p).1, (copyJsonString n p).2) := by
  rw [copyJsonString.eq_def]
  simp only [hq, hb, if_false]

/-- Copying that stops inside `p` does the same in front of more text. -/
theorem copyJsonString_append (n : ℕ) (p s : Bytes) (h : (copyJsonString n p).2 ≠ []) :
    copyJsonString n (p ++ s) = ((copyJsonString n p).1, (copyJsonString n p).2 ++ s) := by
  fun_induction copyJsonString n p with
  | case1 p => rfl
  | case2 n => exact absurd rfl h
  | case3 n p => exact copyJsonString_quote _ _
  | case4 n => exact absurd rfl h
  | case5 n d p out rest hrec _ ih =>
    rw [hrec] at ih
    rw [List.cons_append, List.cons_append, copyJsonString_escape, ih h]
  | case6 n c p hq hb out rest hrec ih =>
    rw [hrec] at ih
    rw [List.cons_append, copyJsonString_cons hq hb, ih h]

/-- Copying stops before it has read two quotes, since at most one of them is escaped. -/
theorem copyJsonString_rest_ne_nil (n : ℕ) (p : Bytes) :
    (copyJsonString n (p ++ bytes "\",\"")).2 ≠ [] := by
  fun_induction copyJsonString n p with
  | case1 p => simp [copyJsonString, bytes]
  | case2 n => exact (copyJsonString_quote (n + 1) _).symm ▸ List.cons_ne_nil _ _
  | case3 n p => exact (copyJsonString_quote (n + 1) _).symm ▸ List.cons_ne_nil _ _
  | case4 n =>
    -- the closing quote is escaped, the other one ends the string
    rw [show [charByte '\\'] ++ bytes "\",\"" = charByte '\\' :: quoteByte :: bytes ",\"" from rfl,
      copyJsonString_escape]
    cases n with
    | zero => exact List.cons_ne_nil _ _
    | succ n =>
      rw [show bytes ",\"" = charByte ',' :: [quoteByte] from rfl,
        copyJsonString_cons (by decide) (by decide), copyJsonString_quote]
      exact List.cons_ne_nil _ _
  | case5 n d p out rest hrec _ ih =>
    rw [List.cons_append, List.cons_append, copyJsonString_escape]
    exact ih
  | case6 n c p hq hb out rest hrec ih =>
    rw [List.cons_append, copyJsonString_cons hq hb]
    exact ih

/-- The subject is read up to its first quote that is not escaped. -/
theorem parseJsonStringField_payload (sub : Bytes) (roles : UInt32) (exp : Int64) :
    parseJsonStringField (sessionPayload sub (rolesJson roles) exp) (bytes "sub") EDGE_AUTH_SUB_MAX
      = readJsonString (quoted sub ++ bytes ",\"") EDGE_AUTH_SUB_MAX := by
  have hkey : snprintf 80 (quoted (bytes "sub")) = quoted (bytes "sub") := rfl
  have hfind : strstr (sessionPayload sub (rolesJson roles) exp) (quoted (bytes "sub"))
      = some (quoted (bytes "sub") ++
          charByte ':' :: (quoted sub ++ charByte ',' :: payloadTail roles exp)) := by
    rw [sessionPayload_eq, List.cons_append]
    refine (strstr_append (a := [charByte '\x7b']) (by decide) _ _).trans ?_
    exact strstr_here (List.prefix_append _ _)
  obtain ⟨rest, hrest⟩ : ∃ rest, payloadTail roles exp = quoteByte :: rest := ⟨_, rfl⟩
  have hlong : quoted sub ++ charByte ',' :: payloadTail roles exp
      = quoteByte :: (sub ++ bytes "\",\"" ++ rest) := by
    rw [hrest]
    simp [quoted, bytes, quoteByte]
  have hshort : quoted sub ++ bytes ",\"" = quoteByte :: (sub ++ bytes "\",\"") := by
    simp [quoted, bytes, quoteByte]
  have hstop := copyJsonString_rest_ne_nil (EDGE_AUTH_SUB_MAX - 1) sub
  have hhead : ((copyJsonString (EDGE_AUTH_SUB_MAX - 1) (sub ++ bytes "\",\"")).2 ++ rest).head?
      = (copyJsonString (EDGE_AUTH_SUB_MAX - 1) (sub ++ bytes "\",\"")).2.head? := by
    rw [List.head?_append_of_ne_nil _ hstop]
  unfold parseJsonStringField
  simp only [hkey, hfind, List.drop_left]
  rw [hlong, hshort, readJsonString, readJsonString, strchr_cons_of_ne (by decide),
    strchr_cons_self, strchr_cons_self]
  simp only [List.drop_succ_cons, List.drop_zero, copyJsonString_append _ _ rest hstop, hhead]

/-- A subject without quotes and backslashes that fits is read whole. -/
theorem readJsonString_plain {sub : Bytes} (hq : quoteByte ∉ sub) (hb : charByte '\\' ∉ sub)
    (hlen : sub.length < EDGE_AUTH_SUB_MAX) (s : Bytes) :
    readJsonString (quoted sub ++ s) EDGE_AUTH_SUB_MAX = some sub := by
  have hcopy : ∀ (n : ℕ) (sub : Bytes), quoteByte ∉ sub → charByte '\\' ∉ sub → sub.length ≤ n →
      copyJsonString n (sub ++ quoteByte :: s) = (sub, quoteByte :: s) := by
    intro n sub
    induction sub generalizing n with
    | nil => exact fun _ _ _ => copyJsonString_quote n s
    | cons c sub ih =>
      intro hq hb hlen
      rw [List.mem_cons, not_or] at hq hb
      obtain ⟨n, rfl⟩ : ∃ m, n = m + 1 := ⟨n - 1, by simp at hlen; omega⟩
      rw [List.cons_append, copyJsonString_cons (Ne.symm hq.1) (Ne.symm hb.1),
        ih n hq.2 hb.2 (by simpa using hlen)]
  have hshape : quoted sub ++ s = quoteByte :: (sub ++ quoteByte :: s) := by simp [quoted]
  rw [hshape, readJsonString, strchr_cons_self]
  simp only [List.drop_succ_cons, List.drop_zero]
  rw [hcopy _ sub hq hb (by omega)]
  rfl

/-! ## Issuing and checking -/

/-- The cookie of a payload: both parts in the URL encoding. -/
def sealedCookie (key payload : Bytes) : Bytes :=
  (b64Digits payload).map b64UrlDigit ++
    charByte '.' :: (b64Digits (hmacSha256 key payload)).map b64UrlDigit

/-- The payload that an issued cookie carries. -/
def issuedPayload (ctx : EdgeAuthCtx) (clock : Clock) (sub : Option Bytes) (roles : UInt32) : Bytes :=
  sessionPayload (subOrLab sub) (rolesJson roles) (sessionExp ctx clock)

/-- The principal that an issued cookie stands for. -/
def issuedPrincipal (ctx : EdgeAuthCtx) (clock : Clock) (sub : Option Bytes) (roles : UInt32) :
    EdgePrincipal where
  authenticated := true
  sub := snprintf EDGE_AUTH_SUB_MAX (subOrLab sub)
  roles := roles
  exp := sessionExp ctx clock

private theorem guard_bind {α : Type} {p : Prop} [Decidable p] (k : Unit → Option α) :
    (guard p : Option Unit).bind k = if p then k () else none := by
  by_cases h : p
  · rw [if_pos h, guard, if_pos h]; rfl
  · rw [if_neg h, guard, if_neg h]; rfl

/-- **What issuing does**: it fails without a key or without room, else it seals the payload. -/
theorem edgeAuthSessionIssue_eq (ctx : EdgeAuthCtx) (clock : Clock) (sub : Option Bytes)
    (roles : UInt32) (cookieValSz : ℕ) :
    edgeAuthSessionIssue (some ctx) clock sub roles cookieValSz
      = if (cookieValSz < 16 ∨ ctx.hmacKey.length = 0) ∨
            (issuedPayload ctx clock sub roles).length ≥ 256 ∨
            (sealedCookie ctx.hmacKey (issuedPayload ctx clock sub roles)).length ≥ cookieValSz then none
        else some (sealedCookie ctx.hmacKey (issuedPayload ctx clock sub roles),
          issuedPrincipal ctx clock sub roles) := by
  unfold edgeAuthSessionIssue
  simp only [Option.bind_eq_bind, Option.bind_some, rolesToJsonArray_eq, guard_bind]
  rw [← issuedPayload]
  by_cases hsmall : cookieValSz < 16 ∨ ctx.hmacKey.length = 0
  · rw [if_neg (not_not.mpr hsmall), if_pos (.inl hsmall)]
  by_cases hlong : (issuedPayload ctx clock sub roles).length ≥ 256
  · rw [if_pos hsmall, if_neg (not_not.mpr hlong), if_pos (.inr (.inl hlong))]
  have hmac : b64Encode (hmacSha256 ctx.hmacKey (issuedPayload ctx clock sub roles)) 64 true
      = some ((b64Digits _).map b64UrlDigit) := b64Encode_url (by rw [length_hmacSha256]; decide)
  rw [if_pos hsmall, if_pos hlong, b64Encode_url (by omega), hmac]
  simp only [Option.bind_some]
  rw [← sealedCookie]
  by_cases hroom : (sealedCookie ctx.hmacKey (issuedPayload ctx clock sub roles)).length ≥ cookieValSz
  · rw [if_neg (not_not.mpr hroom), if_pos (.inr (.inr hroom))]
  · rw [if_pos hroom, if_neg (by tauto)]
    rfl

/-- The differences of a comparison without an early exit, collected in one byte. -/
theorem foldl_or_eq_zero_iff (f : ℕ → UInt8) (n : ℕ) :
    (List.range n).foldl (fun d i => d ||| f i) 0 = 0 ↔ ∀ i < n, f i = 0 := by
  induction n with
  | zero => simp
  | succ n ih =>
    rw [List.range_succ, List.foldl_append, List.foldl_cons, List.foldl_nil, UInt8.or_eq_zero_iff, ih]
    exact Nat.forall_lt_succ_right.symm

theorem ctEq_iff {a b : Bytes} {n : ℕ} (ha : a.length = n) (hb : b.length = n) :
    ctEq a b n ↔ a = b := by
  rw [ctEq, decide_eq_true_iff, foldl_or_eq_zero_iff]
  refine ⟨fun h => List.ext_getElem (ha.trans hb.symm) fun i hia hib => ?_, ?_⟩
  · have hi := UInt8.xor_eq_zero_iff.mp (h i (ha ▸ hia))
    rwa [List.getD_eq_getElem _ _ hia, List.getD_eq_getElem _ _ hib] at hi
  · rintro rfl i -
    exact UInt8.xor_self

/-- **A sealed payload passes the signature check** under its key; the rest of the verifier reads it. -/
theorem sessionCheck_sealed {ctx : EdgeAuthCtx} (hkey : ctx.hmacKey.length ≠ 0) (now : Int64)
    {payload : Bytes} (hpos : payload ≠ []) (hlen : payload.length < 256) :
    sessionCheck ctx now (sealedCookie ctx.hmacKey payload) = sessionRead now (cstr payload) := by
  have hdot : charByte '.' ∉ (b64Digits payload).map b64UrlDigit := by
    intro h
    obtain ⟨d, hd, hdot⟩ := List.mem_map.mp h
    exact b64UrlDigit_ne_dot (b64Digits_lt payload d hd) hdot
  have hpaylen := length_b64Digits payload
  have hpos' := List.length_pos_iff.mpr hpos
  have hmac := length_hmacSha256 ctx.hmacKey payload
  unfold sessionCheck sealedCookie
  simp only [Option.bind_eq_bind, guard_bind]
  rw [strchr_append hdot, strchr_cons_self]
  simp only [Option.bind_some, List.length_append, Nat.add_sub_cancel, List.take_left,
    List.drop_succ_cons, List.drop_zero]
  rw [if_pos hkey, if_pos, if_pos, if_pos, b64Decode_url (by omega) (by omega)]
  · simp only [Option.bind_some]
    have hmaclen := length_b64Digits (hmacSha256 ctx.hmacKey payload)
    rw [if_pos (by omega), b64Decode_url hmac.le (by omega), Option.bind_some, if_pos, if_pos]
    · exact (ctEq_iff hmac hmac).mpr rfl
    · exact not_not.mpr hmac
  · have hmaclen := length_b64Digits (hmacSha256 ctx.hmacKey payload)
    rw [List.length_map]
    omega
  · rw [List.length_map]
    omega
  · have hmaclen := length_b64Digits (hmacSha256 ctx.hmacKey payload)
    rw [← List.length_eq_zero_iff, ← List.length_eq_zero_iff, List.length_map, List.length_map]
    omega

end Edgehost
