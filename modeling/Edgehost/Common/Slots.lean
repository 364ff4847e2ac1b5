import Mathlib.Data.List.Basic
import Mathlib.Data.Set.Card
import Mathlib.Order.Basic

/-!
# Fixed slot arrays with holes

A fixed array of records, some in use and some free, is the usual C stand-in for a finite map: an
entry is found by a linear scan for its key, a new entry takes the first free slot, and removing an
entry only clears its use flag. This module reads such an array as a partial function.

* `SlotView` says which slots are in use and by which key they are found. One array may carry
  several views, one for each key it is searched by.
* `SlotView.find` and `firstFree` are the two scans, returning a slot index as the C code returns a
  pointer into the array.
* `SlotView.Distinct` is the invariant that no two slots in use share a key.
* `SlotView.lookup` is the partial function, and `SlotView.lookup_set` says how it changes under one
  slot write. Insertion, update in place and removal are its three instances.
* `liveSet` reads the array as a finite set, which a write into a free slot adds to and a cleared slot
  is taken from.
-/

variable {α κ : Type*}

/-- How a slot array is read: which slots are in use, and the key each slot is found by. -/
structure SlotView (α κ : Type*) where
  live : α → Bool
  key : α → κ

/-- The first slot not in use. -/
def firstFree (live : α → Bool) (xs : List α) : Option ℕ :=
  xs.findIdx? fun x => !live x

theorem firstFree_eq_some {live : α → Bool} {xs : List α} {i : ℕ}
    (h : firstFree live xs = some i) : ∃ x, xs[i]? = some x ∧ live x = false := by
  obtain ⟨hi, hx, -⟩ := List.findIdx?_eq_some_iff_getElem.mp h
  exact ⟨xs[i], List.getElem?_eq_getElem hi, by simpa using hx⟩

theorem firstFree_eq_none {live : α → Bool} {xs : List α} :
    firstFree live xs = none ↔ ∀ x ∈ xs, live x = true := by
  simp [firstFree, List.findIdx?_eq_none_iff]

/-- A free slot exists exactly when fewer slots are in use than the array has. -/
theorem firstFree_isSome_iff {live : α → Bool} {xs : List α} :
    (firstFree live xs).isSome ↔ xs.countP live < xs.length := by
  have hall : xs.countP live = xs.length ↔ firstFree live xs = none := by
    rw [List.countP_eq_length, firstFree_eq_none]
  have hle := xs.countP_le_length (p := live)
  constructor
  · intro h
    by_contra hn
    rw [hall.mp (by omega)] at h
    exact absurd h (by simp)
  · intro h
    by_contra hn
    have := hall.mpr (by simpa using hn)
    omega

/-- The first slot not in use, with its stale record. -/
def locateFree (live : α → Bool) (xs : List α) : Option (ℕ × α) :=
  (firstFree live xs).bind fun i => xs[i]?.map fun x => (i, x)

theorem locateFree_eq_some {live : α → Bool} {xs : List α} {i : ℕ} {x : α}
    (h : locateFree live xs = some (i, x)) : xs[i]? = some x ∧ live x = false := by
  simp only [locateFree, Option.bind_eq_some_iff, Option.map_eq_some_iff, Prod.mk.injEq] at h
  obtain ⟨j, hj, y, hy, rfl, rfl⟩ := h
  obtain ⟨z, hz, hfree⟩ := firstFree_eq_some hj
  obtain rfl : z = y := Option.some.inj (hz.symm.trans hy)
  exact ⟨hy, hfree⟩

/-- No free slot is found exactly when all slots are in use. -/
theorem locateFree_eq_none {live : α → Bool} {xs : List α} :
    locateFree live xs = none ↔ xs.countP live = xs.length := by
  rw [List.countP_eq_length, ← firstFree_eq_none]
  cases hf : firstFree live xs with
  | none => simp [locateFree, hf]
  | some i =>
    obtain ⟨x, hx, -⟩ := firstFree_eq_some hf
    simp [locateFree, hf, hx]

namespace SlotView

variable [DecidableEq κ] (v : SlotView α κ)

/-- The scan for a key: the first slot in use that carries it. -/
def find (xs : List α) (k : κ) : Option ℕ :=
  xs.findIdx? fun x => v.live x && decide (v.key x = k)

/-- The scan for a key, with the record at the slot found. -/
def locate (xs : List α) (k : κ) : Option (ℕ × α) :=
  (v.find xs k).bind fun i => xs[i]?.map fun x => (i, x)

/-- The array as a partial function from keys to records. -/
def lookup (xs : List α) (k : κ) : Option α :=
  (v.find xs k).bind (xs[·]?)

omit [DecidableEq κ] in
/-- No two slots in use share a key. -/
def Distinct (xs : List α) : Prop :=
  ∀ (i j : ℕ) (x y : α), xs[i]? = some x → xs[j]? = some y → v.live x → v.live y →
    v.key x = v.key y → i = j

theorem find_eq_some {xs : List α} {k : κ} {i : ℕ} (h : v.find xs k = some i) :
    ∃ x, xs[i]? = some x ∧ v.live x = true ∧ v.key x = k := by
  obtain ⟨hi, hx, -⟩ := List.findIdx?_eq_some_iff_getElem.mp h
  simp only [Bool.and_eq_true, decide_eq_true_eq] at hx
  exact ⟨xs[i], List.getElem?_eq_getElem hi, hx⟩

theorem find_eq_none {xs : List α} {k : κ} :
    v.find xs k = none ↔ ∀ x ∈ xs, v.live x = true → v.key x ≠ k := by
  simp [find, List.findIdx?_eq_none_iff]

variable {v}

/-- With distinct keys the scan finds the one slot that carries the key. -/
theorem Distinct.find_eq_some_iff {xs : List α} (hd : v.Distinct xs) {k : κ} {i : ℕ} :
    v.find xs k = some i ↔ ∃ x, xs[i]? = some x ∧ v.live x = true ∧ v.key x = k := by
  refine ⟨v.find_eq_some, ?_⟩
  rintro ⟨x, hx, hlive, hkey⟩
  cases hf : v.find xs k with
  | none => exact absurd hkey (v.find_eq_none.mp hf x (List.mem_of_getElem? hx) hlive)
  | some j =>
    obtain ⟨y, hy, hylive, hykey⟩ := v.find_eq_some hf
    rw [hd j i y x hy hx hylive hlive (hykey.trans hkey.symm)]

theorem lookup_mem {xs : List α} {k : κ} {x : α} (h : v.lookup xs k = some x) :
    x ∈ xs ∧ v.live x = true ∧ v.key x = k := by
  simp only [lookup, Option.bind_eq_some_iff] at h
  obtain ⟨i, hi, hx⟩ := h
  obtain ⟨y, hy, hlive, hkey⟩ := v.find_eq_some hi
  obtain rfl : y = x := Option.some.inj (hy.symm.trans hx)
  exact ⟨List.mem_of_getElem? hx, hlive, hkey⟩

theorem Distinct.lookup_eq_some_iff {xs : List α} (hd : v.Distinct xs) {k : κ} {x : α} :
    v.lookup xs k = some x ↔ x ∈ xs ∧ v.live x = true ∧ v.key x = k := by
  refine ⟨lookup_mem, ?_⟩
  rintro ⟨hmem, hlive, hkey⟩
  obtain ⟨i, hi⟩ := List.mem_iff_getElem?.mp hmem
  simp [lookup, hd.find_eq_some_iff.mpr ⟨x, hi, hlive, hkey⟩, hi]

theorem lookup_eq_none_iff {xs : List α} {k : κ} :
    v.lookup xs k = none ↔ v.find xs k = none := by
  refine ⟨fun h => ?_, fun h => by simp [lookup, h]⟩
  cases hf : v.find xs k with
  | none => rfl
  | some i =>
    obtain ⟨x, hx, -⟩ := v.find_eq_some hf
    simp [lookup, hf, hx] at h

theorem locate_eq_some {xs : List α} {k : κ} {i : ℕ} {x : α} (h : v.locate xs k = some (i, x)) :
    v.find xs k = some i ∧ xs[i]? = some x ∧ v.live x = true ∧ v.key x = k := by
  simp only [locate, Option.bind_eq_some_iff, Option.map_eq_some_iff, Prod.mk.injEq] at h
  obtain ⟨j, hj, y, hy, rfl, rfl⟩ := h
  obtain ⟨z, hz, hlive, hkey⟩ := v.find_eq_some hj
  obtain rfl : z = y := Option.some.inj (hz.symm.trans hy)
  exact ⟨hj, hy, hlive, hkey⟩

theorem locate_eq_none {xs : List α} {k : κ} : v.locate xs k = none ↔ v.find xs k = none := by
  refine ⟨fun h => ?_, fun h => by simp [locate, h]⟩
  cases hf : v.find xs k with
  | none => rfl
  | some i =>
    obtain ⟨x, hx, -⟩ := v.find_eq_some hf
    simp [locate, hf, hx] at h

theorem lookup_of_find {xs : List α} {k : κ} {i : ℕ} {x : α} (hf : v.find xs k = some i)
    (hx : xs[i]? = some x) : v.lookup xs k = some x := by
  simp [lookup, hf, hx]

omit [DecidableEq κ] in
/-- Writing one slot keeps the keys distinct when no other slot in use carries the new key. -/
theorem Distinct.set {xs : List α} (hd : v.Distinct xs) (i : ℕ) (x : α)
    (hfresh : v.live x = true → ∀ (j : ℕ) (y : α), j ≠ i → xs[j]? = some y → v.live y = true →
      v.key y ≠ v.key x) :
    v.Distinct (xs.set i x) := by
  intro a b y z ha hb hy hz hkey
  rw [List.getElem?_set] at ha hb
  split at ha <;> split at hb
  · omega
  · rename_i hia hib
    split at ha <;> simp only [reduceCtorEq, Option.some.injEq] at ha
    subst ha
    exact absurd hkey.symm (hfresh hy b z (fun h => hib h.symm) hb hz)
  · rename_i hia hib
    split at hb <;> simp only [reduceCtorEq, Option.some.injEq] at hb
    subst hb
    exact absurd hkey (hfresh hz a y (fun h => hia h.symm) ha hy)
  · exact hd a b y z ha hb hy hz hkey

omit [DecidableEq κ] in
/-- Appending a slot keeps the keys distinct when no slot in use carries its key. -/
theorem Distinct.append {xs : List α} (hd : v.Distinct xs) {x : α}
    (hfresh : v.live x = true → ∀ y ∈ xs, v.live y = true → v.key y ≠ v.key x) :
    v.Distinct (xs ++ [x]) := by
  intro i j y z hi hj hy hz hkey
  rw [List.getElem?_append] at hi hj
  split at hi <;> split at hj
  · exact hd i j y z hi hj hy hz hkey
  · obtain rfl := List.mem_singleton.mp (List.mem_of_getElem? hj)
    exact absurd hkey (hfresh hz y (List.mem_of_getElem? hi) hy)
  · obtain rfl := List.mem_singleton.mp (List.mem_of_getElem? hi)
    exact absurd hkey.symm (hfresh hy z (List.mem_of_getElem? hj) hz)
  · have hi' := (List.getElem?_eq_some_iff.mp hi).1
    have hj' := (List.getElem?_eq_some_iff.mp hj).1
    simp only [List.length_singleton] at hi' hj'
    omega

/-- **One slot write, seen through `lookup`.** The slot's new record is found by its own key, its
old key is gone, and every other key keeps its record. -/
theorem Distinct.lookup_set {xs : List α} (hd : v.Distinct xs) {i : ℕ} {x y : α}
    (hy : xs[i]? = some y) (hd' : v.Distinct (xs.set i x)) (k : κ) :
    v.lookup (xs.set i x) k =
      if v.live x = true ∧ v.key x = k then some x
      else if v.live y = true ∧ v.key y = k then none
      else v.lookup xs k := by
  have hi : i < xs.length := (List.getElem?_eq_some_iff.mp hy).1
  have hself : (xs.set i x)[i]? = some x := by simp [hi]
  have hother : ∀ j, j ≠ i → (xs.set i x)[j]? = xs[j]? := fun j hj =>
    List.getElem?_set_ne (Ne.symm hj)
  split_ifs with hx hold
  · exact hd'.lookup_eq_some_iff.mpr ⟨List.mem_of_getElem? hself, hx⟩
  · rw [lookup_eq_none_iff, find_eq_none]
    intro z hz hlive hkey
    obtain ⟨j, hj⟩ := List.mem_iff_getElem?.mp hz
    by_cases hji : j = i
    · rw [hji, hself] at hj
      obtain rfl := Option.some.inj hj
      exact hx ⟨hlive, hkey⟩
    · rw [hother j hji] at hj
      exact hji (hd j i z y hj hy hlive hold.1 (hkey.trans hold.2.symm))
  · refine Option.ext fun z => ?_
    rw [hd'.lookup_eq_some_iff, hd.lookup_eq_some_iff]
    refine and_congr_left fun hz => ?_
    rw [List.mem_iff_getElem?, List.mem_iff_getElem?]
    refine exists_congr fun j => ?_
    by_cases hji : j = i
    · subst hji
      rw [hself, hy]
      constructor
      · intro h
        obtain rfl := Option.some.inj h
        exact absurd hz hx
      · intro h
        obtain rfl := Option.some.inj h
        exact absurd hz hold
    · rw [hother j hji]

end SlotView

/-- Overwriting one slot moves the number of slots in use by the difference of the two flags. -/
theorem countP_set_add (live : α → Bool) {xs : List α} {i : ℕ} {y : α} (x : α)
    (hy : xs[i]? = some y) :
    (xs.set i x).countP live + (if live y then 1 else 0)
      = xs.countP live + (if live x then 1 else 0) := by
  obtain ⟨hi, rfl⟩ := List.getElem?_eq_some_iff.mp hy
  rw [List.countP_set hi]
  by_cases h : live xs[i] = true
  · have hpos : 0 < xs.countP live := List.countP_pos_iff.mpr ⟨xs[i], List.getElem_mem hi, h⟩
    rw [if_pos h]
    omega
  · rw [if_neg h]
    omega

/-! ## The records in use as a set -/

/-- The records in use. -/
def liveSet (live : α → Bool) (xs : List α) : Set α := {x | x ∈ xs ∧ live x}

theorem liveSet_finite (live : α → Bool) (xs : List α) : (liveSet live xs).Finite :=
  xs.finite_toSet.subset fun _ hx => hx.1

/-- A record written into a free slot joins the set. -/
theorem liveSet_set_free {live : α → Bool} {xs : List α} {i : ℕ} {old x : α}
    (hold : xs[i]? = some old) (hfree : live old = false) (hx : live x = true) :
    liveSet live (xs.set i x) = insert x (liveSet live xs) := by
  have hi : i < xs.length := (List.getElem?_eq_some_iff.mp hold).1
  ext y
  constructor
  · rintro ⟨hy, hlive⟩
    rcases List.mem_or_eq_of_mem_set hy with hy | rfl
    · exact .inr ⟨hy, hlive⟩
    · exact .inl rfl
  · rintro (rfl | ⟨hy, hlive⟩)
    · exact ⟨List.mem_set hi _, hx⟩
    · obtain ⟨j, hj⟩ := List.mem_iff_getElem?.mp hy
      have hne : i ≠ j := by
        rintro rfl
        rw [hold] at hj
        rw [Option.some.inj hj, hlive] at hfree
        cases hfree
      exact ⟨List.mem_iff_getElem?.mpr ⟨j, by rw [List.getElem?_set_ne hne, hj]⟩, hlive⟩

/-- With distinct keys, clearing a slot takes its record, and only that one, from the set. -/
theorem SlotView.Distinct.liveSet_set_clear {v : SlotView α κ} {xs : List α} (hd : v.Distinct xs)
    {i : ℕ} {x y : α} (hx : xs[i]? = some x) (hlive : v.live x = true) (hy : v.live y = false) :
    liveSet v.live (xs.set i y) = liveSet v.live xs \ {x} := by
  ext z
  constructor
  · rintro ⟨hz, hzlive⟩
    obtain ⟨j, hj⟩ := List.mem_iff_getElem?.mp hz
    rw [List.getElem?_set] at hj
    split at hj
    · split at hj <;> cases hj
      rw [hzlive] at hy
      cases hy
    · rename_i hne
      refine ⟨⟨List.mem_of_getElem? hj, hzlive⟩, ?_⟩
      rintro rfl
      exact hne (hd i j _ _ hx hj hlive hlive rfl)
  · rintro ⟨⟨hz, hzlive⟩, hne⟩
    obtain ⟨j, hj⟩ := List.mem_iff_getElem?.mp hz
    have hij : i ≠ j := by
      rintro rfl
      rw [hx] at hj
      exact hne (Option.some.inj hj).symm
    exact ⟨List.mem_iff_getElem?.mpr ⟨j, by rw [List.getElem?_set_ne hij, hj]⟩, hzlive⟩

/-- With distinct keys, the scan for a key finds exactly the record in use that carries it. -/
theorem SlotView.Distinct.exists_locate_iff [DecidableEq κ] {v : SlotView α κ} {xs : List α}
    (hd : v.Distinct xs) {k : κ} {x : α} :
    (∃ i, v.locate xs k = some (i, x)) ↔ x ∈ liveSet v.live xs ∧ v.key x = k := by
  constructor
  · rintro ⟨i, h⟩
    obtain ⟨-, hx, hlive, hkey⟩ := SlotView.locate_eq_some h
    exact ⟨⟨List.mem_of_getElem? hx, hlive⟩, hkey⟩
  · rintro ⟨⟨hx, hlive⟩, hkey⟩
    obtain ⟨i, hi⟩ := List.mem_iff_getElem?.mp hx
    have hfind := hd.find_eq_some_iff.mpr ⟨x, hi, hlive, hkey⟩
    exact ⟨i, by simp [SlotView.locate, hfind, hi]⟩

/-- With distinct keys, the set is as large as the number of slots in use. -/
theorem SlotView.Distinct.ncard_liveSet {v : SlotView α κ} {xs : List α} (hd : v.Distinct xs) :
    (liveSet v.live xs).ncard = xs.countP v.live := by
  classical
  have hnodup : (xs.filter v.live).Nodup := by
    rw [List.Nodup, List.pairwise_filter, List.pairwise_iff_getElem]
    rintro i j hi hj hij hlive hlive' heq
    have := hd i j _ _ (List.getElem?_eq_getElem hi) (List.getElem?_eq_getElem hj) hlive hlive'
      (by rw [heq])
    omega
  have hset : liveSet v.live xs = ((xs.filter v.live).toFinset : Set α) := by
    ext x
    simp [liveSet]
  rw [hset, Set.ncard_coe_finset, List.toFinset_card_of_nodup hnodup, List.countP_eq_length_filter]
