import Edgehost.Core.AuthVerify

/-!
# Which roles a header names

A roles header is a list of entries between commas. `edge_auth_roles_from_csv` reads the first word of
every entry, and a header in which it recognises nothing makes an employee.

* `roleHas_rolesFromCsvLoop` is what the token loop computes: the roles that are the first word of
  some entry.
* `rolesAsNamed_iff` says for which headers the result is the roles the header names: one must be
  named at all, and no longer entry may start with the name of another role.
-/

namespace Edgehost

/-! ## Masks -/

theorem roleHas_or (a b : UInt32) (r : EdgeRole) :
    edgeAuthRoleHas (a ||| b) r = (edgeAuthRoleHas a r || edgeAuthRoleHas b r) := by
  have hdistrib : (a ||| b) &&& r.bit = a &&& r.bit ||| b &&& r.bit :=
    UInt32.toBitVec_inj.mp BitVec.and_or_distrib_right
  rw [Bool.eq_iff_iff]
  simp only [edgeAuthRoleHas, hdistrib, Bool.or_eq_true, decide_eq_true_eq, ne_eq,
    ← UInt32.toNat_inj, UInt32.toNat_or, UInt32.toNat_zero, Nat.or_eq_zero_iff]
  tauto

theorem roleHas_zero (r : EdgeRole) : edgeAuthRoleHas 0 r = false := by
  cases r <;> rfl

theorem roleHas_bit (r r' : EdgeRole) : edgeAuthRoleHas r'.bit r = true ↔ r' = r := by
  cases r <;> cases r' <;> decide

/-- The flag of a name is the flag of the role with this name. -/
theorem roleHas_roleParse (name : Bytes) (r : EdgeRole) :
    edgeAuthRoleHas (edgeAuthRoleParse name) r = true ↔ name = r.text := by
  rw [edgeAuthRoleParse]
  cases hfind : edgeRoles.find? (fun r => r.text = name) with
  | none =>
    have hno := List.find?_eq_none.mp hfind r (mem_edgeRoles r)
    simp only [roleHas_zero, Bool.false_eq_true, false_iff]
    exact fun heq => hno (by simpa using heq.symm)
  | some r' =>
    have htext : r'.text = name := by simpa using List.find?_some hfind
    rw [roleHas_bit, ← htext, EdgeRole.text_inj]

/-! ## Entries -/

/-- The entries of a roles header. -/
def rolesEntries (csv : Bytes) : List Bytes := csv.splitOn (charByte ',')

/-- An entry without the blanks around it. -/
def trimBlank (e : Bytes) : Bytes := (e.dropWhile isBlank).rdropWhile isBlank

/-- The first word of an entry, cut after 63 bytes. -/
def firstWord (e : Bytes) : Bytes := csvToken (e.dropWhile isBlank)

/-- Some entry of the header starts with the name of the role. -/
def StartsEntry (csv : Bytes) (r : EdgeRole) : Prop := ∃ e ∈ rolesEntries csv, firstWord e = r.text

/-- Some entry of the header is the name of the role. -/
def NamesRole (csv : Bytes) (r : EdgeRole) : Prop := ∃ e ∈ rolesEntries csv, trimBlank e = r.text

theorem isCsvSep_iff (c : UInt8) : isCsvSep c = true ↔ c = charByte ',' ∨ isBlank c = true := by
  simp [isCsvSep, isBlank]

theorem not_isCsvSep_of_mem_text {r : EdgeRole} : ∀ c ∈ r.text, isCsvSep c = false := by
  cases r <;> decide +kernel

theorem EdgeRole.text_length (r : EdgeRole) : 0 < r.text.length ∧ r.text.length ≤ 63 := by
  cases r <;> decide

/-- A name that is a whole entry is its first word. -/
theorem NamesRole.startsEntry {csv : Bytes} {r : EdgeRole} (h : NamesRole csv r) :
    StartsEntry csv r := by
  obtain ⟨e, he, htrim⟩ := h
  refine ⟨e, he, ?_⟩
  rw [firstWord, csvToken]
  rw [trimBlank] at htrim
  generalize e.dropWhile isBlank = f at htrim ⊢
  have hsplit : f = r.text ++ f.rtakeWhile isBlank := by
    rw [← htrim, List.rdropWhile_append_rtakeWhile]
  have hword : f.takeWhile (¬isCsvSep ·) = r.text := by
    rw [hsplit, List.takeWhile_append_of_pos fun c hc => by simp [not_isCsvSep_of_mem_text c hc]]
    cases hrest : f.rtakeWhile isBlank with
    | nil => simp
    | cons c cs =>
      have hblank : isBlank c = true := List.mem_rtakeWhile_imp (l := f) (by rw [hrest]; simp)
      rw [List.takeWhile_cons_of_neg, List.append_nil]
      simpa using (isCsvSep_iff c).mpr (Or.inr hblank)
  rw [hword, List.take_of_length_le r.text_length.2]

/-! ## The token loop -/

theorem firstWord_nil : firstWord [] = [] := rfl

private theorem text_ne_nil (r : EdgeRole) : [] ≠ r.text := by
  cases r <;> decide

theorem rolesEntries_comma (p : Bytes) : rolesEntries (charByte ',' :: p) = [] :: rolesEntries p := by
  rw [rolesEntries, List.splitOn_eq_splitOnP, List.splitOnP_cons_eq_if_modifyHead, if_pos (by simp)]
  rfl

/-- A separator in front starts no entry. -/
theorem startsEntry_sep {c : UInt8} (hc : isCsvSep c = true) (p : Bytes) (r : EdgeRole) :
    StartsEntry (c :: p) r ↔ StartsEntry p r := by
  rcases (isCsvSep_iff c).mp hc with rfl | hblank
  · rw [StartsEntry, rolesEntries_comma, List.exists_mem_cons_iff, firstWord_nil]
    exact or_iff_right (text_ne_nil r)
  · have hne : c ≠ charByte ',' := by
      rintro rfl
      exact absurd hblank (by decide)
    rw [StartsEntry, StartsEntry, rolesEntries, rolesEntries, List.splitOn_eq_splitOnP,
      List.splitOnP_cons_eq_if_modifyHead, if_neg (by simpa using hne), ← List.splitOn_eq_splitOnP]
    obtain ⟨e, es, hes⟩ := List.exists_cons_of_ne_nil (List.splitOn_ne_nil (charByte ',') p)
    rw [hes, List.modifyHead_cons, List.exists_mem_cons_iff, List.exists_mem_cons_iff, firstWord,
      List.dropWhile_cons_of_pos hblank, firstWord]

theorem startsEntry_dropSep (p : Bytes) (r : EdgeRole) :
    StartsEntry (p.dropWhile isCsvSep) r ↔ StartsEntry p r := by
  induction p with
  | nil => rfl
  | cons c p ih =>
    by_cases hc : isCsvSep c = true
    · rw [List.dropWhile_cons_of_pos hc, ih, startsEntry_sep hc]
    · rw [List.dropWhile_cons_of_neg hc]

theorem not_startsEntry_nil (r : EdgeRole) : ¬ StartsEntry [] r := by
  rintro ⟨e, he, hword⟩
  obtain rfl : e = [] := List.mem_singleton.mp he
  exact text_ne_nil r hword

/-- Where a text starts with a word, this word and what follows the next comma are what it names. -/
theorem startsEntry_word {q : Bytes} {c : UInt8} (hq : q.head? = some c) (hc : isCsvSep c = false)
    (r : EdgeRole) :
    StartsEntry q r ↔ csvToken q = r.text ∨ StartsEntry (q.dropWhile (· ≠ charByte ',')) r := by
  have hentry : ∀ x ∈ q.takeWhile (· ≠ charByte ','), (x == charByte ',') = false := by
    intro x hx
    simpa using List.mem_takeWhile_imp hx
  -- The first entry starts with the word that the token loop takes.
  have hword : firstWord (q.takeWhile (· ≠ charByte ',')) = csvToken q := by
    obtain ⟨q, rfl⟩ : ∃ q', q = c :: q' := ⟨q.tail, (List.cons_head?_tail hq).symm⟩
    have hnocomma : c ≠ charByte ',' := by
      rintro rfl
      exact absurd hc (by decide)
    have hnoblank : ¬ isBlank c = true := fun hb => by
      rw [(isCsvSep_iff c).mpr (Or.inr hb)] at hc
      exact Bool.noConfusion hc
    rw [List.takeWhile_cons_of_pos (by simpa using hnocomma), firstWord,
      List.dropWhile_cons_of_neg hnoblank, ← List.takeWhile_cons_of_pos (by simpa using hnocomma),
      csvToken, csvToken, List.takeWhile_takeWhile]
    congr 2
    funext x
    by_cases hx : x = charByte ','
    · simp [hx, isCsvSep]
    · simp [hx]
  have hsplit := List.takeWhile_append_dropWhile (p := (· ≠ charByte ',')) (l := q)
  cases hrest : q.dropWhile (· ≠ charByte ',') with
  | nil =>
    rw [hrest, List.append_nil] at hsplit
    rw [or_iff_left (not_startsEntry_nil r), StartsEntry, rolesEntries, List.splitOn_eq_splitOnP]
    rw [hsplit] at hentry hword
    rw [List.splitOnP_eq_singleton hentry]
    simp [hword]
  | cons d rest =>
    have hd : d = charByte ',' := by
      have hhead := List.head?_dropWhile_not (· ≠ charByte ',') q
      rw [hrest] at hhead
      simpa using hhead
    subst hd
    rw [startsEntry_sep (by decide)]
    rw [hrest] at hsplit
    rw [← hword]
    conv_lhs => rw [← hsplit]
    rw [StartsEntry, rolesEntries, List.splitOn_eq_splitOnP,
      List.splitOnP_append_cons_of_forall_mem hentry _ (by simp), List.exists_mem_cons_iff]
    rfl

/-- A word holds no comma: cutting it off leaves the next comma where it is. -/
theorem dropWhile_drop_csvToken (q : Bytes) :
    (q.drop (csvToken q).length).dropWhile (· ≠ charByte ',') = q.dropWhile (· ≠ charByte ',') := by
  have htok : csvToken q <+: q := (List.take_prefix _ _).trans (List.takeWhile_prefix _)
  obtain ⟨rest, hq⟩ := htok
  have hall : ∀ x ∈ csvToken q, decide (x ≠ charByte ',') = true := fun x hx => by
    have hx := List.mem_takeWhile_imp (List.mem_of_mem_take hx)
    rw [decide_eq_true_iff]
    rintro rfl
    exact absurd hx (by decide)
  generalize csvToken q = tok at hq hall
  subst hq
  rw [List.drop_left, List.dropWhile_append_of_pos hall]

/-- One turn of the loop: a word, and the entries after the next comma. -/
theorem startsEntry_turn {p q : Bytes} (hpq : p.dropWhile isCsvSep = q) (hq : q ≠ []) (r : EdgeRole) :
    StartsEntry p r ↔ csvToken q = r.text ∨
      StartsEntry ((q.drop (csvToken q).length).dropWhile (· ≠ charByte ',')) r := by
  obtain ⟨c, q', hcons⟩ := List.exists_cons_of_ne_nil hq
  have hhead : q.head? = some c := by rw [hcons]; rfl
  have hsep : isCsvSep c = false := by
    have hdrop := List.head?_dropWhile_not isCsvSep p
    rw [hpq, hhead] at hdrop
    exact hdrop
  rw [← startsEntry_dropSep p, hpq, startsEntry_word hhead hsep, dropWhile_drop_csvToken]

/-- **The token loop** adds the roles that are the first word of some entry. -/
theorem roleHas_rolesFromCsvLoop (p : Bytes) (roles : UInt32) (r : EdgeRole) :
    edgeAuthRoleHas (rolesFromCsvLoop p roles) r = true ↔
      edgeAuthRoleHas roles r = true ∨ StartsEntry p r := by
  fun_induction rolesFromCsvLoop p roles with
  | case1 p roles q hq =>
    rw [← startsEntry_dropSep]
    show _ ↔ _ ∨ StartsEntry q r
    rw [hq, or_iff_left (not_startsEntry_nil r)]
  | case2 p roles q hq tok ih =>
    rw [ih, roleHas_or, Bool.or_eq_true, roleHas_roleParse, startsEntry_turn rfl hq, or_assoc]

/-- A word that is no role's name adds no flag. -/
theorem roleParse_eq_zero {name : Bytes} (h : ∀ r : EdgeRole, name ≠ r.text) :
    edgeAuthRoleParse name = 0 := by
  rw [edgeAuthRoleParse, List.find?_eq_none.mpr]
  intro r _ htext
  exact h r (of_decide_eq_true htext).symm

/-- The loop that recognises nothing adds no flag. -/
theorem rolesFromCsvLoop_of_none (p : Bytes) (roles : UInt32) (h : ∀ r, ¬ StartsEntry p r) :
    rolesFromCsvLoop p roles = roles := by
  fun_induction rolesFromCsvLoop p roles with
  | case1 p roles q hq => rfl
  | case2 p roles q hq tok ih =>
    have hturn := fun r => not_or.mp ((startsEntry_turn rfl hq r).not.mp (h r))
    rw [ih fun r => (hturn r).2, roleParse_eq_zero fun r => (hturn r).1, UInt32.or_zero]

/-- The roles of a header that is not empty. -/
theorem roleHas_rolesFromCsv {csv : Bytes} (hne : csv ≠ []) (r : EdgeRole) :
    edgeAuthRoleHas (edgeAuthRolesFromCsv (some csv)) r = true ↔
      StartsEntry csv r ∨ (r = .employee ∧ ∀ r', ¬ StartsEntry csv r') := by
  have hloop := roleHas_rolesFromCsvLoop csv 0
  simp only [roleHas_zero, Bool.false_eq_true, false_or] at hloop
  obtain ⟨c, cs, rfl⟩ := List.exists_cons_of_ne_nil hne
  show edgeAuthRoleHas (if rolesFromCsvLoop (c :: cs) 0 ≠ 0 then rolesFromCsvLoop (c :: cs) 0
    else EdgeRole.employee.bit) r = true ↔ _
  by_cases hzero : rolesFromCsvLoop (c :: cs) 0 = 0
  · have hnone : ∀ r', ¬ StartsEntry (c :: cs) r' := fun r' h => by
      rw [← hloop, hzero, roleHas_zero] at h
      exact Bool.noConfusion h
    simp only [hzero, ne_eq, not_true_eq_false, if_false, roleHas_bit]
    rw [or_iff_right (hnone r), eq_comm, and_iff_left hnone]
  · have hsome : ¬ ∀ r', ¬ StartsEntry (c :: cs) r' := fun h =>
      hzero (rolesFromCsvLoop_of_none _ _ h)
    simp only [ne_eq, hzero, not_false_eq_true, if_true, hloop]
    rw [or_iff_left fun h => hsome h.2]

/-! ## What the header says and what it grants -/

/-- The roles read from a header are the ones it names, and signed headers that name no role grant
nothing. -/
def RolesAsNamed (csv : Bytes) : Prop :=
  (∀ r, edgeAuthRoleHas (edgeAuthRolesFromCsv (some csv)) r = true ↔ NamesRole csv r) ∧
    ∀ ctx clock user tsHdr sigHdr out p,
      edgeAuthProxyVerify ctx clock user (some csv) tsHdr sigHdr out = (0, some p) →
        (∀ r, ¬ NamesRole csv r) → ∀ res, edgeAuthRbacCheck (some p) res = .deny

/-- **When a header is read as it names roles.** This is so exactly when it names a role at all, and
every role whose name starts an entry is named by a whole entry. -/
theorem rolesAsNamed_iff (csv : Bytes) (hne : csv ≠ []) :
    RolesAsNamed csv ↔
      (∃ r, NamesRole csv r) ∧ ∀ r, StartsEntry csv r → NamesRole csv r := by
  constructor
  · rintro ⟨hroles, -⟩
    have hstart : ∀ r, StartsEntry csv r → NamesRole csv r := fun r hr =>
      (hroles r).mp ((roleHas_rolesFromCsv hne r).mpr (Or.inl hr))
    refine ⟨?_, hstart⟩
    by_cases hany : ∃ r, StartsEntry csv r
    · obtain ⟨r, hr⟩ := hany
      exact ⟨r, hstart r hr⟩
    · -- Nothing is recognised, and the header still makes an employee.
      have hemp := (roleHas_rolesFromCsv hne .employee).mpr
        (Or.inr ⟨rfl, not_exists.mp hany⟩)
      exact ⟨.employee, (hroles .employee).mp hemp⟩
  · rintro ⟨⟨r₀, hr₀⟩, hstart⟩
    have hroles : ∀ r, edgeAuthRoleHas (edgeAuthRolesFromCsv (some csv)) r = true ↔
        NamesRole csv r := fun r => by
      rw [roleHas_rolesFromCsv hne, or_iff_left fun h => h.2 r₀ hr₀.startsEntry]
      exact ⟨hstart r, NamesRole.startsEntry⟩
    refine ⟨hroles, fun ctx clock user tsHdr sigHdr out p hverify hnone res => ?_⟩
    exact absurd hr₀ (hnone r₀)

theorem rolesAsNamed_admin : bytes "employee_admin, ingest" ≠ [] ∧
    RolesAsNamed (bytes "employee_admin, ingest") := by
  have hentries : rolesEntries (bytes "employee_admin, ingest")
      = [bytes "employee_admin", bytes " ingest"] := by decide
  have hwords : firstWord (bytes "employee_admin") = bytes "employee_admin" ∧
      firstWord (bytes " ingest") = bytes "ingest" := by decide
  have htrims : trimBlank (bytes "employee_admin") = bytes "employee_admin" ∧
      trimBlank (bytes " ingest") = bytes "ingest" := by decide
  refine ⟨by decide, (rolesAsNamed_iff _ (by decide)).mpr ⟨⟨.ingest, ?_⟩, fun r hr => ?_⟩⟩
  · exact ⟨bytes " ingest", by rw [hentries]; simp, htrims.2⟩
  · rw [StartsEntry, hentries] at hr
    rw [NamesRole, hentries]
    simpa [hwords, htrims] using hr

/-- A header that names an unknown role alone makes an employee. -/
theorem not_rolesAsNamed_unknown : ¬ RolesAsNamed (bytes "guest") := by
  have hentries : rolesEntries (bytes "guest") = [bytes "guest"] := by decide
  have hnone : ∀ r, ¬ StartsEntry (bytes "guest") r := by
    rintro r ⟨e, he, hword⟩
    rw [hentries, List.mem_singleton] at he
    subst he
    cases r <;> exact absurd hword (by decide)
  rintro ⟨hroles, -⟩
  have hemp := (roleHas_rolesFromCsv (by decide) .employee).mpr (Or.inr ⟨rfl, hnone⟩)
  exact hnone _ ((hroles .employee).mp hemp).startsEntry

end Edgehost
