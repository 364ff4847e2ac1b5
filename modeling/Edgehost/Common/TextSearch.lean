import Edgehost.Common.CString

/-!
# Searching texts made of fields

`strstr` in a text whose fields are separated by a byte that the needle does not hold: an occurrence lies
within one field. Where the needle ends in the byte that separates a name from its value, it is either the
end of the name with this byte, or lies within the value.

`FirstAt` is the first place of a text where something holds of the rest; `strstr` stops at the first place
with the needle in front.
-/

/-! ## First places -/

section FirstAt

variable {α : Type*} {P : List α → Prop}

/-- In `a ++ t` the part `t` starts at the first place where `P` holds. -/
def FirstAt (P : List α → Prop) (a t : List α) : Prop :=
  P t ∧ ∀ a' t', a' ++ t' = a ++ t → P t' → a.length ≤ a'.length

theorem FirstAt.here {t : List α} (h : P t) : FirstAt P [] t :=
  ⟨h, fun _ _ _ _ => Nat.zero_le _⟩

/-- A first place further on is one of the tail, where `P` does not hold of the whole. -/
theorem firstAt_cons {c : α} {a t : List α} :
    FirstAt P (c :: a) t ↔ ¬P (c :: (a ++ t)) ∧ FirstAt P a t := by
  constructor
  · rintro ⟨ht, hfirst⟩
    refine ⟨fun hp => ?_, ht, fun a' t' heq hp => ?_⟩
    · exact absurd (hfirst [] (c :: (a ++ t)) rfl hp) (Nat.not_succ_le_zero _)
    · have hle := hfirst (c :: a') t' (congrArg (c :: ·) heq) hp
      exact Nat.le_of_succ_le_succ hle
  · rintro ⟨hnot, ht, hfirst⟩
    refine ⟨ht, fun a' t' heq hp => ?_⟩
    rcases a' with _ | ⟨d, a'⟩
    · obtain rfl : t' = c :: (a ++ t) := heq
      exact absurd hp hnot
    · obtain ⟨rfl, htail⟩ := List.cons.inj heq
      exact Nat.succ_le_succ (hfirst a' t' htail hp)

/-- There is one first place at most. -/
theorem FirstAt.unique {a b t u : List α} (ha : FirstAt P a t) (hb : FirstAt P b u)
    (heq : a ++ t = b ++ u) : a = b ∧ t = u :=
  List.append_inj heq (Nat.le_antisymm (ha.2 b u heq.symm hb.1) (hb.2 a t heq ha.1))

/-- Where `P` holds at some place, it does at a first one. -/
theorem exists_firstAt {s a t : List α} (hs : s = a ++ t) (ht : P t) :
    ∃ a' t', s = a' ++ t' ∧ FirstAt P a' t' := by
  induction a generalizing s with
  | nil => exact ⟨[], t, hs, .here ht⟩
  | cons c a ih =>
    by_cases hp : P (c :: (a ++ t))
    · exact ⟨[], c :: (a ++ t), hs, .here hp⟩
    · obtain ⟨a', t', heq, hfirst⟩ := ih rfl
      refine ⟨c :: a', t', ?_, firstAt_cons.mpr ⟨heq ▸ hp, hfirst⟩⟩
      rw [hs, List.cons_append, heq, List.cons_append]

end FirstAt

/-- **A search stops at the first place with the needle in front.** -/
theorem strstr_eq_some_iff {s t n : Bytes} :
    strstr s n = some t ↔ ∃ a, s = a ++ t ∧ FirstAt (fun t => n <+: t) a t := by
  constructor
  · intro h
    induction s with
    | nil =>
      obtain ⟨hpre, hsuf⟩ := strstr_eq_some h
      obtain rfl := List.suffix_nil.mp hsuf
      exact ⟨[], rfl, .here hpre⟩
    | cons c s ih =>
      by_cases hp : n <+: c :: s
      · rw [strstr_here hp] at h
        obtain rfl := Option.some.inj h
        exact ⟨[], rfl, .here hp⟩
      · rw [strstr_skip hp] at h
        obtain ⟨a, rfl, hfirst⟩ := ih h
        exact ⟨c :: a, rfl, firstAt_cons.mpr ⟨hp, hfirst⟩⟩
  · rintro ⟨a, rfl, hfirst⟩
    induction a with
    | nil => exact strstr_here hfirst.1
    | cons c a ih =>
      obtain ⟨hskip, htail⟩ := firstAt_cons.mp hfirst
      exact (strstr_skip hskip).trans (ih htail)

/-- A search finds something exactly where the needle occurs. -/
theorem isSome_strstr_iff {s n : Bytes} : (strstr s n).isSome ↔ n <:+: s := by
  rw [Option.isSome_iff_exists]
  constructor
  · rintro ⟨t, ht⟩
    obtain ⟨⟨u, rfl⟩, hsuf⟩ := strstr_eq_some ht
    exact (List.prefix_append n u).isInfix.trans hsuf.isInfix
  · rintro ⟨a, b, rfl⟩
    have hp : n <+: n ++ b := List.prefix_append n b
    obtain ⟨a', t, heq, hfirst⟩ :=
      exists_firstAt (P := fun t => n <+: t) (List.append_assoc a n b) hp
    exact ⟨t, strstr_eq_some_iff.mpr ⟨a', heq, hfirst⟩⟩

/-- **A search in a part of a text.** The front part of a text holds the needle exactly when it reaches the
end of the first occurrence. -/
theorem FirstAt.isInfix_iff {α : Type*} {n a t p : List α} (h : FirstAt (fun t => n <+: t) a t)
    (hp : p <+: a ++ t) : n <:+: p ↔ a.length + n.length ≤ p.length := by
  constructor
  · rintro ⟨a', b, rfl⟩
    obtain ⟨rest, hrest⟩ := hp
    have hle := h.2 a' (n ++ (b ++ rest)) (by simpa using hrest) (List.prefix_append n _)
    simp only [List.length_append]
    omega
  · intro hle
    obtain ⟨u, rfl⟩ := h.1
    have hfront : a ++ n <+: a ++ (n ++ u) := ⟨u, List.append_assoc a n u⟩
    have hin := List.prefix_of_prefix_length_le hfront hp (by rwa [List.length_append])
    exact (List.suffix_append a n).isInfix.trans hin.isInfix

theorem nul_not_mem_cstr (b : Bytes) : 0 ∉ cstr b := by
  intro h
  unfold cstr at h
  simpa using List.mem_takeWhile_imp h

/-! ## Fields -/

/-- A text without a byte is at the front of a text with it only if it ends before the byte. -/
theorem prefix_append_sep_iff {n s r : Bytes} {c : UInt8} (hc : c ∉ n) :
    n <+: s ++ c :: r ↔ n <+: s := by
  refine ⟨fun h => ?_, fun h => h.trans (List.prefix_append _ _)⟩
  obtain ⟨t, ht⟩ := h
  rcases List.append_eq_append_iff.mp ht with ⟨u, rfl, -⟩ | ⟨u, rfl, hu⟩
  · exact List.prefix_append n u
  · rcases u with _ | ⟨d, u⟩
    · rw [List.append_nil]
    · obtain ⟨rfl, -⟩ := List.cons.inj hu
      exact absurd (List.mem_append_right _ List.mem_cons_self) hc

/-- **A search through fields.** It stops in the first field with an occurrence. -/
theorem strstr_append_sep {n : Bytes} {c : UInt8} (hc : c ∉ n) (hn : n ≠ []) (s r : Bytes) :
    strstr (s ++ c :: r) n =
      match strstr s n with
      | some t => some (t ++ c :: r)
      | none => strstr r n := by
  induction s with
  | nil =>
    have hskip : ¬ n <+: c :: r := by
      intro h
      obtain ⟨d, n, rfl⟩ := List.exists_cons_of_ne_nil hn
      obtain ⟨rfl, -⟩ := List.cons_prefix_cons.mp h
      exact hc List.mem_cons_self
    rw [List.nil_append, strstr_skip hskip, strstr, if_neg hn]
  | cons x s ih =>
    by_cases hp : n <+: x :: s
    · rw [strstr_here hp, List.cons_append]
      exact strstr_here (hp.trans (List.prefix_append (x :: s) (c :: r)))
    · have hskip : ¬ n <+: x :: (s ++ c :: r) := fun h => hp ((prefix_append_sep_iff hc).mp h)
      rw [List.cons_append, strstr_skip hskip, strstr_skip hp, ih]

/-- **A search in a field** for the end of a name with the separator behind it. -/
theorem strstr_name_sep {a name : Bytes} {c : UInt8} (ha : c ∉ a) (hne : a ≠ []) (hname : c ∉ name)
    (v : Bytes) :
    strstr (name ++ c :: v) (a ++ [c]) =
      if a <:+ name then some (a ++ c :: v) else strstr v (a ++ [c]) := by
  induction name with
  | nil =>
    have hskip : ¬ a ++ [c] <+: c :: v := by
      intro h
      obtain ⟨d, a, rfl⟩ := List.exists_cons_of_ne_nil hne
      obtain ⟨rfl, -⟩ := List.cons_prefix_cons.mp h
      exact ha List.mem_cons_self
    rw [List.nil_append, strstr_skip hskip, if_neg fun h => hne (List.suffix_nil.mp h)]
  | cons x name ih =>
    have htail := ih fun h => hname (List.mem_cons_of_mem x h)
    by_cases hall : a = x :: name
    · rw [← hall, if_pos List.suffix_rfl]
      refine strstr_here ⟨v, ?_⟩
      rw [List.append_assoc, List.singleton_append]
    · have hskip : ¬ a ++ [c] <+: x :: (name ++ c :: v) := by
        rintro ⟨t, ht⟩
        rw [List.append_assoc, List.singleton_append] at ht
        exact hall (append_cons_inj ha hname ht).1
      rw [List.cons_append, strstr_skip hskip, htail]
      exact if_congr (by rw [List.suffix_cons_iff, or_iff_right hall]) rfl rfl
