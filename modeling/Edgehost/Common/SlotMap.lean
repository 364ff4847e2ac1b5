import Edgehost.Common.Slots
import Mathlib.Data.Finmap

/-!
# Slot arrays as finite maps

`SlotView.toFinmap` is the finite map that a slot array stands for. With distinct keys, filling a free
slot or updating a slot in place is `Finmap.insert`, clearing a slot is `Finmap.erase`, and the number
of slots in use is the number of keys.
-/

namespace SlotView

variable {α κ β : Type*} [DecidableEq κ] (v : SlotView α κ) (val : α → β)

/-- The finite map a slot array stands for, with `val` reading a slot's value. -/
def toFinmap (xs : List α) : Finmap fun _ : κ => β :=
  List.toFinmap ((xs.filter v.live).map fun x => ⟨v.key x, val x⟩)

theorem lookup_cons (x : α) (xs : List α) (k : κ) :
    v.lookup (x :: xs) k = if v.live x ∧ v.key x = k then some x else v.lookup xs k := by
  unfold lookup find
  rw [List.findIdx?_cons]
  by_cases hx : v.live x ∧ v.key x = k
  · simp [hx]
  · rw [if_neg hx, if_neg (by simpa using hx)]
    cases List.findIdx? (fun x => v.live x && decide (v.key x = k)) xs <;> simp

@[simp] theorem lookup_toFinmap (xs : List α) (k : κ) :
    (v.toFinmap val xs).lookup k = (v.lookup xs k).map val := by
  unfold toFinmap
  rw [Finmap.dlookup_list_toFinmap]
  induction xs with
  | nil => rfl
  | cons x xs ih =>
    rw [lookup_cons]
    by_cases hlive : v.live x = true
    · rw [List.filter_cons_of_pos hlive, List.map_cons]
      by_cases hkey : v.key x = k
      · subst hkey
        simp [hlive]
      · rw [List.dlookup_cons_ne _ _ (Ne.symm hkey), ih, if_neg (fun h => hkey h.2)]
    · rw [List.filter_cons_of_neg hlive, ih, if_neg (fun h => hlive h.1)]

theorem mem_toFinmap {xs : List α} {k : κ} :
    k ∈ v.toFinmap val xs ↔ ∃ x ∈ xs, v.live x = true ∧ v.key x = k := by
  simp [toFinmap, Finmap.mem_list_toFinmap, and_assoc]

theorem keys_toFinmap (xs : List α) :
    (v.toFinmap val xs).keys = ((xs.filter v.live).map v.key).toFinset := by
  ext k
  simp [Finmap.mem_keys, mem_toFinmap, and_assoc]

variable {v}

omit [DecidableEq κ] in
/-- The keys in use, in slot order, are distinct. -/
theorem Distinct.nodup_keys {xs : List α} (hd : v.Distinct xs) :
    ((xs.filter v.live).map v.key).Nodup := by
  rw [List.Nodup, List.pairwise_map, List.pairwise_filter, List.pairwise_iff_getElem]
  intro i j hi hj hij hlive hlive' hkey
  have := hd i j _ _ (List.getElem?_eq_getElem hi) (List.getElem?_eq_getElem hj) hlive hlive' hkey
  omega

theorem Distinct.card_keys {xs : List α} (hd : v.Distinct xs) :
    (v.toFinmap val xs).keys.card = xs.countP v.live := by
  rw [keys_toFinmap, List.toFinset_card_of_nodup hd.nodup_keys, List.length_map,
    List.countP_eq_length_filter]

/-- Filling a free slot, or updating a slot in place, inserts. -/
theorem Distinct.toFinmap_set_insert {xs : List α} (hd : v.Distinct xs) {i : ℕ} {x y : α}
    (hy : xs[i]? = some y) (hd' : v.Distinct (xs.set i x)) (hx : v.live x = true)
    (hold : v.live y = true → v.key y = v.key x) :
    v.toFinmap val (xs.set i x) = (v.toFinmap val xs).insert (v.key x) (val x) := by
  refine Finmap.ext_lookup fun k => ?_
  rw [lookup_toFinmap, hd.lookup_set hy hd']
  by_cases hk : v.key x = k
  · subst hk
    rw [if_pos ⟨hx, rfl⟩, Finmap.lookup_insert]
    rfl
  · rw [if_neg (fun h => hk h.2), if_neg (fun h => hk ((hold h.1).symm.trans h.2)),
      Finmap.lookup_insert_of_ne _ (Ne.symm hk), lookup_toFinmap]

/-- Clearing a slot in use erases its key. -/
theorem Distinct.toFinmap_set_erase {xs : List α} (hd : v.Distinct xs) {i : ℕ} {x y : α}
    (hy : xs[i]? = some y) (hd' : v.Distinct (xs.set i x)) (hx : v.live x = false)
    (hold : v.live y = true) :
    v.toFinmap val (xs.set i x) = (v.toFinmap val xs).erase (v.key y) := by
  refine Finmap.ext_lookup fun k => ?_
  rw [lookup_toFinmap, hd.lookup_set hy hd', if_neg (by simp [hx])]
  by_cases hk : v.key y = k
  · subst hk
    rw [if_pos ⟨hold, rfl⟩, Finmap.lookup_erase]
    rfl
  · rw [if_neg (fun h => hk h.2), Finmap.lookup_erase_ne (Ne.symm hk), lookup_toFinmap]

/-- Appending a slot in use inserts. -/
theorem Distinct.toFinmap_append {xs : List α} {x : α} (hd' : v.Distinct (xs ++ [x]))
    (hx : v.live x = true) :
    v.toFinmap val (xs ++ [x]) = (v.toFinmap val xs).insert (v.key x) (val x) := by
  refine Finmap.ext_lookup fun k => ?_
  rw [lookup_toFinmap]
  by_cases hk : v.key x = k
  · subst hk
    rw [Finmap.lookup_insert, hd'.lookup_eq_some_iff.mpr ⟨by simp, hx, rfl⟩]
    rfl
  · rw [Finmap.lookup_insert_of_ne _ (Ne.symm hk), lookup_toFinmap]
    congr 1
    induction xs with
    | nil => simp [lookup_cons, hk]
    | cons y xs ih =>
      have hd : v.Distinct (xs ++ [x]) := fun i j a b ha hb hla hlb hkey =>
        Nat.succ.inj (hd' (i + 1) (j + 1) a b (by simpa using ha) (by simpa using hb) hla hlb hkey)
      rw [List.cons_append, lookup_cons, lookup_cons, ih hd]

end SlotView
