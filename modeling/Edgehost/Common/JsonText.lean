import Edgehost.Common.CString
import Mathlib.Algebra.Order.BigOperators.Group.List

/-!
# Searching text with quoted names

Programs that look up JSON members with `strstr` search for a name between its quotes. A byte that is
not in the needle cuts such a search in two (`strstr_sep`), and a quoted string without a quote inside
is found by its own name only (`strstr_quoted`).
-/

/-- The double quote. -/
def quoteByte : UInt8 := charByte '"'

/-- A text between double quotes. -/
def quoted (text : Bytes) : Bytes := quoteByte :: (text ++ [quoteByte])

/-- The items of a JSON array of names. -/
def joinNames : List Bytes → Bytes
  | [] => []
  | [n] => quoted n
  | n :: ns => quoted n ++ charByte ',' :: joinNames ns

@[simp] theorem length_quoted (text : Bytes) : (quoted text).length = text.length + 2 := by
  simp [quoted]

theorem quoted_ne_nil (text : Bytes) : quoted text ≠ [] := List.cons_ne_nil _ _

theorem mem_quoted {c : UInt8} {text : Bytes} : c ∈ quoted text ↔ c = quoteByte ∨ c ∈ text := by
  simp [quoted]
  tauto

/-- A text without the byte `c` begins what it begins before the first `c`. -/
theorem prefix_before_sep {c : UInt8} {n : Bytes} (hc : c ∉ n) (a s : Bytes) :
    n <+: a ++ c :: s ↔ n <+: a := by
  refine ⟨fun h => ?_, fun h => h.trans (List.prefix_append _ _)⟩
  induction a generalizing n with
  | nil =>
    cases n with
    | nil => exact List.nil_prefix
    | cons b n =>
      have hb : b = c := (List.cons_prefix_cons.mp h).1
      exact absurd (hb ▸ List.mem_cons_self) hc
  | cons x a ih =>
    cases n with
    | nil => exact List.nil_prefix
    | cons b n =>
      obtain ⟨rfl, htail⟩ := List.cons_prefix_cons.mp h
      exact List.cons_prefix_cons.mpr ⟨rfl, ih (fun h => hc (List.mem_cons_of_mem _ h)) htail⟩

/-- **A byte that is not in the needle cuts the search in two.** -/
theorem strstr_sep {c : UInt8} {n : Bytes} (hn : n ≠ []) (hc : c ∉ n) (a s : Bytes) :
    strstr (a ++ c :: s) n = ((strstr a n).map (· ++ c :: s)).or (strstr s n) := by
  induction a with
  | nil =>
    have hnil : strstr [] n = none := if_neg hn
    have hskip : ¬n <+: [] ++ c :: s := by
      rw [prefix_before_sep hc, List.prefix_nil]
      exact hn
    rw [hnil, List.nil_append, strstr_skip hskip]
    rfl
  | cons x a ih =>
    by_cases hx : n <+: x :: a
    · rw [strstr_here hx, strstr_here ((prefix_before_sep hc _ s).mpr hx)]
      rfl
    · rw [strstr_skip hx, List.cons_append, strstr_skip, ih]
      rw [← List.cons_append, prefix_before_sep hc]
      exact hx

/-- **A quoted string is found by its own name only**, when no quote is inside. -/
theorem strstr_quoted {x y : Bytes} (hx : quoteByte ∉ x) (hy : quoteByte ∉ y) :
    strstr (quoted y) (quoted x) = if x = y then some (quoted y) else none := by
  by_cases hxy : x = y
  · rw [if_pos hxy, hxy, strstr_here List.prefix_rfl]
  · have hstart : ¬quoted x <+: quoted y := by
      intro h
      have h : x ++ [quoteByte] <+: y ++ [quoteByte] := (List.cons_prefix_cons.mp h).2
      have hxpre : x <+: y :=
        (prefix_before_sep hx y []).mp ((List.prefix_append _ _).trans h)
      obtain ⟨z, rfl⟩ := hxpre
      rw [List.append_assoc, List.prefix_append_right_inj] at h
      cases z with
      | nil => exact hxy (List.append_nil x).symm
      | cons b z =>
        have hb : quoteByte = b := (List.cons_prefix_cons.mp h).1
        exact hy (hb ▸ List.mem_append_right _ List.mem_cons_self)
    rw [if_neg hxy, quoted, strstr_skip hstart, quoted, strstr_append hy]
    refine (strstr_skip fun h => ?_).trans (if_neg (List.cons_ne_nil _ _))
    simpa using h.length_le

theorem mem_joinNames {c : UInt8} {ns : List Bytes} (h : c ∈ joinNames ns) :
    c = quoteByte ∨ c = charByte ',' ∨ ∃ n ∈ ns, c ∈ n := by
  induction ns using joinNames.induct with
  | case1 => cases h
  | case2 n =>
    rcases mem_quoted.mp h with rfl | h
    · exact .inl rfl
    · exact .inr (.inr ⟨n, List.mem_cons_self, h⟩)
  | case3 n ns hne ih =>
    rw [joinNames.eq_3 _ _ hne, List.mem_append, List.mem_cons, mem_quoted] at h
    rcases h with (rfl | h) | rfl | h
    · exact .inl rfl
    · exact .inr (.inr ⟨n, List.mem_cons_self, h⟩)
    · exact .inr (.inl rfl)
    · rcases ih h with h | h | ⟨m, hm, h⟩
      · exact .inl h
      · exact .inr (.inl h)
      · exact .inr (.inr ⟨m, List.mem_cons_of_mem _ hm, h⟩)

theorem length_joinNames_le (ns : List Bytes) :
    (joinNames ns).length ≤ (ns.map fun n => n.length + 3).sum := by
  induction ns using joinNames.induct with
  | case1 => simp [joinNames]
  | case2 n => simp [joinNames]
  | case3 n ns hne ih =>
    rw [joinNames.eq_3 _ _ hne, List.map_cons, List.sum_cons, List.length_append, length_quoted,
      List.length_cons]
    omega

/-- **A quoted name occurs in a list of names exactly when it is one of them.** -/
theorem strstr_joinNames {x : Bytes} (hx : quoteByte ∉ x) (hcomma : charByte ',' ∉ x)
    {ns : List Bytes} (hns : ∀ n ∈ ns, quoteByte ∉ n) :
    (strstr (joinNames ns) (quoted x)).isSome ↔ x ∈ ns := by
  induction ns using joinNames.induct with
  | case1 => simp [joinNames, strstr, quoted_ne_nil]
  | case2 n =>
    rw [joinNames, strstr_quoted hx (hns n List.mem_cons_self), List.mem_singleton]
    by_cases h : x = n
    · simp [h]
    · simp [h]
  | case3 n ns hne ih =>
    rw [List.forall_mem_cons] at hns
    have hsep : charByte ',' ∉ quoted x := by
      rw [mem_quoted, not_or]
      exact ⟨by decide, hcomma⟩
    rw [joinNames.eq_3 _ _ hne, strstr_sep (quoted_ne_nil x) hsep, strstr_quoted hx hns.1,
      List.mem_cons, ← ih hns.2]
    by_cases h : x = n
    · simp [h]
    · simp [h]
