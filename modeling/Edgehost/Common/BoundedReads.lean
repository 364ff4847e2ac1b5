import Edgehost.Common.CString

/-!
# C strings in a buffer with a length

A function on C strings stops where it finds what it looks for, or at the NUL. In a buffer that only has a
length there may be neither, and the function reads on behind the end. The functions here are given the
buffer and say `none` when they do; otherwise they return what the function of the C library does.
-/

/-- `strchr`, for a byte that is not NUL. -/
def strchrIn : Bytes → UInt8 → Option (Option Bytes)
  | [], _ => none
  | x :: xs, c => if x = c then some (some (x :: xs)) else if x = 0 then some none else strchrIn xs c

/-- What `strtoll` leaves of a text: everything behind the white space, a sign and the digits. -/
def numeralRest (s : Bytes) : Bytes := (takeSign (s.dropWhile isspace)).2.dropWhile isdigit

/-- `strtoll`, which looks at the byte behind the digits. -/
def strtollIn (s : Bytes) : Option (ℤ × Bytes) := if numeralRest s = [] then none else some (strtoll s)

/-- A search passes over bytes that are neither. -/
theorem strchrIn_append {a : Bytes} {c : UInt8} (hc : c ∉ a) (h0 : 0 ∉ a) (s : Bytes) :
    strchrIn (a ++ s) c = strchrIn s c := by
  induction a with
  | nil => rfl
  | cons x a ih =>
    rw [List.mem_cons, not_or] at hc h0
    rw [List.cons_append, strchrIn, if_neg (Ne.symm hc.1), if_neg (Ne.symm h0.1), ih hc.2 h0.2]

/-- **Where a search ends**: at the byte, at a NUL, or not within the buffer. -/
theorem strchrIn_cases {c : UInt8} (s : Bytes) :
    (c ∉ s ∧ 0 ∉ s ∧ strchrIn s c = none) ∨
      ∃ a d b, s = a ++ d :: b ∧ c ∉ a ∧ 0 ∉ a ∧
        ((d = c ∧ strchrIn s c = some (some (d :: b))) ∨
          (d ≠ c ∧ d = 0 ∧ strchrIn s c = some none)) := by
  induction s with
  | nil => exact Or.inl ⟨List.not_mem_nil, List.not_mem_nil, rfl⟩
  | cons x s ih =>
    by_cases hc : x = c
    · refine Or.inr ⟨[], x, s, rfl, List.not_mem_nil, List.not_mem_nil, Or.inl ⟨hc, ?_⟩⟩
      rw [strchrIn, if_pos hc]
    by_cases h0 : x = 0
    · refine Or.inr ⟨[], x, s, rfl, List.not_mem_nil, List.not_mem_nil, Or.inr ⟨hc, h0, ?_⟩⟩
      rw [strchrIn, if_neg hc, if_pos h0]
    have hskip : strchrIn (x :: s) c = strchrIn s c := by rw [strchrIn, if_neg hc, if_neg h0]
    have hpass : ∀ {e : UInt8} {a : Bytes}, x ≠ e → e ∉ a → e ∉ x :: a := fun hne ha hmem =>
      (List.mem_cons.mp hmem).elim (fun h => hne h.symm) ha
    rw [hskip]
    rcases ih with ⟨hcs, h0s, hnone⟩ | ⟨a, d, b, rfl, hca, h0a, hstop⟩
    · exact Or.inl ⟨hpass hc hcs, hpass h0 h0s, hnone⟩
    · exact Or.inr ⟨x :: a, d, b, rfl, hpass hc hca, hpass h0 h0a, hstop⟩

/-- What is found starts with the byte. -/
theorem head_of_strchrIn {s t : Bytes} {c : UInt8} (h : strchrIn s c = some (some t)) :
    ∃ b, t = c :: b := by
  rcases strchrIn_cases (c := c) s with ⟨-, -, hnone⟩ | ⟨a, d, b, -, -, -, hstop⟩
  · rw [hnone] at h
    cases h
  · rcases hstop with ⟨rfl, hfound⟩ | ⟨-, -, hnone⟩
    · rw [hfound] at h
      exact ⟨b, (Option.some.inj (Option.some.inj h)).symm⟩
    · rw [hnone] at h
      cases h

/-- What the search returns is what `strchr` finds in the C string of the buffer. -/
theorem strchr_cstr_of_strchrIn {s : Bytes} {c : UInt8} (hc : c ≠ 0) {r : Option Bytes}
    (h : strchrIn s c = some r) : strchr (cstr s) c = r.map cstr := by
  rcases strchrIn_cases (c := c) s with ⟨-, -, hnone⟩ | ⟨a, d, b, rfl, hca, h0a, hstop⟩
  · rw [hnone] at h
    cases h
  · rcases hstop with ⟨rfl, hfound⟩ | ⟨-, rfl, hnone⟩
    · obtain rfl := Option.some.inj (hfound.symm.trans h)
      have hhead : cstr (d :: b) = d :: cstr b := List.takeWhile_cons_of_pos (decide_eq_true hc)
      rw [cstr_append h0a, strchr_append hca, hhead, strchr_cons_self, Option.map_some, hhead]
    · obtain rfl := Option.some.inj (hnone.symm.trans h)
      rw [cstr_append_nul h0a, Option.map_none]
      exact strchr_eq_none.mpr hca

/-- A text and its C string have the same numeral in front. -/
theorem strtoll_cstr (s : Bytes) :
    (strtoll (cstr s)).1 = (strtoll s).1 ∧
      ((strtoll (cstr s)).2 = cstr s ↔ (strtoll s).2 = s) := by
  by_cases h0 : 0 ∈ s
  · obtain ⟨w, t, rfl, hw⟩ := List.eq_append_cons_of_mem h0
    have hread := strtoll_sep (c := 0) (by decide) (by decide) (by decide) w t
    rw [cstr_append_nul hw, hread]
    exact ⟨rfl, (List.append_left_inj _).symm⟩
  · rw [cstr_of_not_mem h0]
    exact ⟨rfl, Iff.rfl⟩
