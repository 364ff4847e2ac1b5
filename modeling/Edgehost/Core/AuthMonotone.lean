import Edgehost.Core.AuthRoles

/-!
# Access with one more role

Roles are a set of flags, and a further entry in the header only adds flags. The check goes through the
roles in an order, and `service_openai` is denied everything but its own resource before the check
comes to `ingest`.

* `roleHas_further` is the effect of a further entry on the flags.
* `keepsAccess_iff` says for which headers, entries and resources the access stays: `ingest` alone can
  lose it, and loses the one resource it has.
-/

namespace Edgehost

/-! ## The check -/

def IsEmployee (R : EdgeRole → Prop) : Prop := R .employee ∨ R .employeeAdmin

theorem isEmployee_or (R R' : EdgeRole → Prop) :
    IsEmployee (fun r => R r ∨ R' r) ↔ IsEmployee R ∨ IsEmployee R' := or_or_or_comm

/-- What the check allows to a set of roles. -/
def RolesAllow (R : EdgeRole → Prop) (res : EdgeAuthResource) : Prop :=
  (IsEmployee R ∧ res ≠ .resNone) ∨
    (¬ IsEmployee R ∧ R .serviceOpenai ∧ res = .resOpenai) ∨
    (¬ IsEmployee R ∧ ¬ R .serviceOpenai ∧ R .ingest ∧ res = .resStatePut)

theorem rbacCheck_eq_allow_iff (p : EdgePrincipal) (res : EdgeAuthResource) :
    edgeAuthRbacCheck (some p) res = .allow ↔
      p.authenticated = true ∧ RolesAllow (fun r => edgeAuthRoleHas p.roles r = true) res := by
  by_cases hauth : p.authenticated = true
  · by_cases hemp : edgeAuthRoleHas p.roles .employee = true ∨
        edgeAuthRoleHas p.roles .employeeAdmin = true
    · cases res <;> simp [edgeAuthRbacCheck, RolesAllow, IsEmployee, hauth, hemp]
    · simp only [edgeAuthRbacCheck, RolesAllow, IsEmployee, hauth, hemp, not_true_eq_false, if_false,
        false_and, false_or, true_and, not_false_eq_true]
      by_cases hopen : edgeAuthRoleHas p.roles .serviceOpenai = true
      · by_cases hres : res = .resOpenai <;> simp [hopen, hres]
      · by_cases hing : edgeAuthRoleHas p.roles .ingest = true
        · by_cases hres : res = .resStatePut <;> simp [hopen, hing, hres]
        · simp [hopen, hing]
  · simp [edgeAuthRbacCheck, hauth]

/-! ## A further entry -/

/-- The entries of two headers with a comma between them. -/
theorem startsEntry_append (s e : Bytes) (r : EdgeRole) :
    StartsEntry (s ++ charByte ',' :: e) r ↔ StartsEntry s r ∨ StartsEntry e r := by
  simp only [StartsEntry, rolesEntries, List.splitOn_append_cons_self, List.mem_append, or_and_right,
    exists_or]

/-- A header that starts an entry with a role's name makes no employee of its own accord. -/
theorem roleHas_of_startsEntry {s : Bytes} (hs : ∃ r, StartsEntry s r) (r : EdgeRole) :
    edgeAuthRoleHas (edgeAuthRolesFromCsv (some s)) r = true ↔ StartsEntry s r := by
  obtain ⟨r₀, hr₀⟩ := hs
  have hne : s ≠ [] := by
    rintro rfl
    exact not_startsEntry_nil r₀ hr₀
  rw [roleHas_rolesFromCsv hne, or_iff_left fun h => h.2 r₀ hr₀]

/-- **A further entry only adds flags**: those of the roles whose names start an entry of it. -/
theorem roleHas_further {s : Bytes} (hs : ∃ r, StartsEntry s r) (e : Bytes) (r : EdgeRole) :
    edgeAuthRoleHas (edgeAuthRolesFromCsv (some (s ++ charByte ',' :: e))) r = true ↔
      edgeAuthRoleHas (edgeAuthRolesFromCsv (some s)) r = true ∨ StartsEntry e r := by
  have hfurther : ∃ r, StartsEntry (s ++ charByte ',' :: e) r := by
    obtain ⟨r₀, hr₀⟩ := hs
    exact ⟨r₀, (startsEntry_append s e r₀).mpr (Or.inl hr₀)⟩
  rw [roleHas_of_startsEntry hs, roleHas_of_startsEntry hfurther, startsEntry_append]

/-! ## Access -/

/-- What a principal with the roles of `s` may do, one with a further entry may do. The namespace and
the key are arguments that the check does not read. -/
def KeepsAccess (s e : Bytes) (res : EdgeAuthResource) : Prop :=
  ∀ p p' : EdgePrincipal, p.authenticated = true → p.roles = edgeAuthRolesFromCsv (some s) →
    p'.authenticated = true → p'.roles = edgeAuthRolesFromCsv (some (s ++ charByte ',' :: e)) →
      edgeAuthRbacCheck (some p) res = .allow → edgeAuthRbacCheck (some p') res = .allow

/-- `ingest` without an employee's role is given `service_openai`. -/
def IngestBecomesService (s e : Bytes) : Prop :=
  StartsEntry s .ingest ∧ ¬ StartsEntry s .serviceOpenai ∧ ¬ IsEmployee (StartsEntry s) ∧
    StartsEntry e .serviceOpenai ∧ ¬ IsEmployee (StartsEntry e)

/-- What the two headers allow, by the roles whose names start their entries. -/
theorem keepsAccess_iff_rolesAllow {s : Bytes} (hs : ∃ r, StartsEntry s r) (e : Bytes)
    (res : EdgeAuthResource) :
    KeepsAccess s e res ↔ (RolesAllow (StartsEntry s) res →
      RolesAllow (fun r => StartsEntry s r ∨ StartsEntry e r) res) := by
  have hroles : (fun r => edgeAuthRoleHas (edgeAuthRolesFromCsv (some s)) r = true)
      = StartsEntry s := funext fun r => propext (roleHas_of_startsEntry hs r)
  have hfurther : (fun r => edgeAuthRoleHas
      (edgeAuthRolesFromCsv (some (s ++ charByte ',' :: e))) r = true)
        = fun r => StartsEntry s r ∨ StartsEntry e r := by
    funext r
    rw [roleHas_further hs, roleHas_of_startsEntry hs]
  constructor
  · intro h hallow
    have hprincipal : ∀ csv, ∃ p : EdgePrincipal, p.authenticated = true ∧
        p.roles = edgeAuthRolesFromCsv csv := fun csv => ⟨⟨true, [], _, 0⟩, rfl, rfl⟩
    obtain ⟨p, hp, hr⟩ := hprincipal (some s)
    obtain ⟨p', hp', hr'⟩ := hprincipal (some (s ++ charByte ',' :: e))
    have hkept := h p p' hp hr hp' hr'
    rw [rbacCheck_eq_allow_iff, rbacCheck_eq_allow_iff, hr, hr', hroles, hfurther] at hkept
    exact (hkept ⟨hp, hallow⟩).2
  · intro h p p' hp hr hp' hr'
    rw [rbacCheck_eq_allow_iff, rbacCheck_eq_allow_iff, hr, hr', hroles, hfurther]
    rintro ⟨-, hallow⟩
    exact ⟨hp', h hallow⟩

/-- **When a further role keeps the access.** It does but for one kind of headers and one resource:
where `ingest` is given `service_openai`, the writes that `ingest` alone has are denied. -/
theorem keepsAccess_iff (s e : Bytes) (res : EdgeAuthResource) (hs : ∃ r, StartsEntry s r) :
    KeepsAccess s e res ↔ ¬ (res = .resStatePut ∧ IngestBecomesService s e) := by
  rw [keepsAccess_iff_rolesAllow hs]
  constructor
  · rintro h ⟨rfl, hing, hopen, hemp, hopen', hemp'⟩
    rcases h (Or.inr (Or.inr ⟨hemp, hopen, hing, rfl⟩)) with
      ⟨hboth, -⟩ | ⟨-, -, hres⟩ | ⟨-, hnone, -⟩
    · exact ((isEmployee_or _ _).mp hboth).elim hemp hemp'
    · exact EdgeAuthResource.noConfusion hres
    · exact hnone (Or.inr hopen')
  · intro h hallow
    by_cases hemp : IsEmployee (fun r => StartsEntry s r ∨ StartsEntry e r)
    · -- An employee has every resource there is.
      refine Or.inl ⟨hemp, ?_⟩
      rintro rfl
      simp [RolesAllow] at hallow
    · obtain ⟨hemps, hempe⟩ := not_or.mp ((isEmployee_or _ _).not.mp hemp)
      rcases hallow with ⟨hemps', -⟩ | ⟨-, hopen, hres⟩ | ⟨-, hopen, hing, hres⟩
      · exact absurd hemps' hemps
      · exact Or.inr (Or.inl ⟨hemp, Or.inl hopen, hres⟩)
      · have hopene : ¬ StartsEntry e .serviceOpenai := fun hopene =>
          h ⟨hres, hing, hopen, hemps, hopene, hempe⟩
        exact Or.inr (Or.inr ⟨hemp, not_or.mpr ⟨hopen, hopene⟩, Or.inl hing, hres⟩)

theorem keepsAccess_ingest_customer : (∃ r, StartsEntry (bytes "ingest") r) ∧
    (KeepsAccess (bytes "ingest") (bytes "customer") .resStatePut ↔
      ¬ (EdgeAuthResource.resStatePut = .resStatePut ∧
        IngestBecomesService (bytes "ingest") (bytes "customer"))) := by
  have hs : ∃ r, StartsEntry (bytes "ingest") r := ⟨.ingest, bytes "ingest", by decide, by decide⟩
  exact ⟨hs, keepsAccess_iff _ _ _ hs⟩

/-- The entries of `ingest` and of `service_openai` start with no other role's name. -/
private theorem startsEntry_single {e : Bytes} (hsingle : rolesEntries e = [e])
    {r₀ : EdgeRole} (hword : firstWord e = r₀.text) (r : EdgeRole) : StartsEntry e r ↔ r₀ = r := by
  rw [StartsEntry, hsingle]
  simp only [List.mem_singleton, exists_eq_left, hword]
  exact EdgeRole.text_inj

/-- The writes of `ingest` are lost with `service_openai` beside it. -/
theorem not_keepsAccess_ingest : (∃ r, StartsEntry (bytes "ingest") r) ∧
    ¬ KeepsAccess (bytes "ingest") (bytes "service_openai") .resStatePut := by
  have hing : ∀ r, StartsEntry (bytes "ingest") r ↔ EdgeRole.ingest = r :=
    startsEntry_single (by decide) (by decide)
  have hopen : ∀ r, StartsEntry (bytes "service_openai") r ↔ EdgeRole.serviceOpenai = r :=
    startsEntry_single (by decide) (by decide)
  have hs : ∃ r, StartsEntry (bytes "ingest") r := ⟨.ingest, (hing _).mpr rfl⟩
  refine ⟨hs, fun hkeeps => ?_⟩
  have hallow := (keepsAccess_iff_rolesAllow hs _ _).mp hkeeps
    (Or.inr (Or.inr ⟨by simp [IsEmployee, hing], by simp [hing], (hing _).mpr rfl, rfl⟩))
  simp [RolesAllow, IsEmployee, hing, hopen] at hallow

end Edgehost
