import Mathlib.Data.List.Basic
import Mathlib.Data.Nat.ModEq

/-!
# Ring buffers over a fixed array

A ring keeps `cnt` elements of a fixed backing array, starting at `head` and wrapping at the end;
`tail` is the next free position. Cells outside the occupied segment keep whatever they last held.
`RingBuf.contents` reads the occupied segment in order, and each operation is shown to act on it as
the corresponding list operation, for every well-formed ring.
-/

variable {α : Type*}

/-- A ring: the backing array, the two indices and the number of elements held. -/
structure RingBuf (α : Type*) where
  slots : List α
  head : ℕ
  tail : ℕ
  cnt : ℕ

namespace RingBuf

/-- The number of cells of the backing array. -/
def cap (r : RingBuf α) : ℕ := r.slots.length

/-- Write the cell at `tail` and advance `tail`. -/
def pushBack (r : RingBuf α) (x : α) : RingBuf α :=
  { r with slots := r.slots.set r.tail x, tail := (r.tail + 1) % r.cap, cnt := r.cnt + 1 }

/-- Advance `head` past the oldest element; its cell keeps its content. -/
def dropFront (r : RingBuf α) : RingBuf α :=
  { r with head := (r.head + 1) % r.cap, cnt := r.cnt - 1 }

/-- Overwrite the cell of the oldest element. -/
def setFront (r : RingBuf α) (x : α) : RingBuf α :=
  { r with slots := r.slots.set r.head x }

/-- The elements held, oldest first. -/
def contents (r : RingBuf α) : List α :=
  (List.range r.cnt).filterMap fun i => r.slots[(r.head + i) % r.cap]?

/-- The index invariant of a ring. -/
structure WF (r : RingBuf α) : Prop where
  fits : r.cnt ≤ r.cap
  head_lt : r.head < r.cap
  tail_eq : r.tail = (r.head + r.cnt) % r.cap

section Fields

variable (r : RingBuf α) (x : α)

@[simp] theorem slots_pushBack : (r.pushBack x).slots = r.slots.set r.tail x := rfl
@[simp] theorem head_pushBack : (r.pushBack x).head = r.head := rfl
@[simp] theorem tail_pushBack : (r.pushBack x).tail = (r.tail + 1) % r.cap := rfl
@[simp] theorem cnt_pushBack : (r.pushBack x).cnt = r.cnt + 1 := rfl
@[simp] theorem cap_pushBack : (r.pushBack x).cap = r.cap := by simp [cap]

@[simp] theorem slots_dropFront : r.dropFront.slots = r.slots := rfl
@[simp] theorem head_dropFront : r.dropFront.head = (r.head + 1) % r.cap := rfl
@[simp] theorem tail_dropFront : r.dropFront.tail = r.tail := rfl
@[simp] theorem cnt_dropFront : r.dropFront.cnt = r.cnt - 1 := rfl
@[simp] theorem cap_dropFront : r.dropFront.cap = r.cap := rfl

@[simp] theorem slots_setFront : (r.setFront x).slots = r.slots.set r.head x := rfl
@[simp] theorem head_setFront : (r.setFront x).head = r.head := rfl
@[simp] theorem tail_setFront : (r.setFront x).tail = r.tail := rfl
@[simp] theorem cnt_setFront : (r.setFront x).cnt = r.cnt := rfl
@[simp] theorem cap_setFront : (r.setFront x).cap = r.cap := by simp [cap]

end Fields

theorem WF.cap_pos {r : RingBuf α} (h : r.WF) : 0 < r.cap :=
  Nat.zero_lt_of_lt h.head_lt

theorem WF.tail_lt {r : RingBuf α} (h : r.WF) : r.tail < r.cap := by
  rw [h.tail_eq]
  exact Nat.mod_lt _ h.cap_pos

theorem WF.pushBack {r : RingBuf α} (h : r.WF) (hroom : r.cnt < r.cap) (x : α) :
    (r.pushBack x).WF where
  fits := by simp only [cap_pushBack, cnt_pushBack]; omega
  head_lt := by simpa using h.head_lt
  tail_eq := by simp [h.tail_eq, Nat.add_assoc]

theorem WF.dropFront {r : RingBuf α} (h : r.WF) (hne : 0 < r.cnt) : r.dropFront.WF where
  fits := by have := h.fits; simp only [cap_dropFront, cnt_dropFront]; omega
  head_lt := Nat.mod_lt _ h.cap_pos
  tail_eq := by
    have hcnt : r.head + 1 + (r.cnt - 1) = r.head + r.cnt := by omega
    simp [h.tail_eq, hcnt]

theorem WF.setFront {r : RingBuf α} (h : r.WF) (x : α) : (r.setFront x).WF where
  fits := by simpa using h.fits
  head_lt := by simpa using h.head_lt
  tail_eq := by simpa using h.tail_eq

/-- Every wrapped position of a well-formed ring is a cell, so `contents` skips nothing. -/
theorem WF.exists_cell {r : RingBuf α} (h : r.WF) (j : ℕ) :
    ∃ x, r.slots[(r.head + j) % r.cap]? = some x :=
  ⟨_, List.getElem?_eq_getElem (Nat.mod_lt _ h.cap_pos)⟩

/-- Positions of a well-formed ring read by offset from `head`. -/
theorem WF.getElem?_contents {r : RingBuf α} (h : r.WF) {i : ℕ} (hi : i < r.cnt) :
    r.contents[i]? = r.slots[(r.head + i) % r.cap]? := by
  choose f hf using h.exists_cell
  simp only [contents, hf, List.filterMap_eq_map']
  simp [hi]

theorem WF.length_contents {r : RingBuf α} (h : r.WF) : r.contents.length = r.cnt := by
  choose f hf using h.exists_cell
  simp only [contents, hf, List.filterMap_eq_map']
  simp

/-- Two offsets below the capacity that name one cell are equal. -/
theorem offset_inj {c head i j : ℕ} (hi : i < c) (hj : j < c)
    (h : (head + i) % c = (head + j) % c) : i = j := by
  have hmod : i ≡ j [MOD c] := Nat.ModEq.add_left_cancel' head h
  rwa [Nat.ModEq, Nat.mod_eq_of_lt hi, Nat.mod_eq_of_lt hj] at hmod

theorem WF.contents_pushBack {r : RingBuf α} (h : r.WF) (hroom : r.cnt < r.cap) (x : α) :
    (r.pushBack x).contents = r.contents ++ [x] := by
  have h' := h.pushBack hroom x
  have hlen := h.length_contents
  have hlen' := h'.length_contents
  refine List.ext_getElem? fun i => ?_
  rcases Nat.lt_trichotomy i r.cnt with hi | rfl | hi
  · rw [h'.getElem?_contents (by simp; omega), List.getElem?_append_left (by omega),
      h.getElem?_contents hi]
    have hne : r.tail ≠ (r.head + i) % r.cap := by
      rw [h.tail_eq]
      exact fun heq => absurd (offset_inj hroom (by omega) heq) (by omega)
    simp [List.getElem?_set_ne hne]
  · have htail : r.tail < r.slots.length := h.tail_lt
    rw [h'.getElem?_contents (by simp), List.getElem?_append_right (by omega)]
    simp [hlen, ← h.tail_eq, htail]
  · rw [List.getElem?_eq_none (by simp at hlen'; omega),
      List.getElem?_eq_none (by simp; omega)]

theorem WF.contents_dropFront {r : RingBuf α} (h : r.WF) (hne : 0 < r.cnt) :
    r.dropFront.contents = r.contents.tail := by
  have h' := h.dropFront hne
  have hlen := h.length_contents
  have hlen' := h'.length_contents
  refine List.ext_getElem? fun i => ?_
  rw [List.getElem?_tail]
  rcases Nat.lt_or_ge i (r.cnt - 1) with hi | hi
  · rw [h'.getElem?_contents (by simpa using hi), h.getElem?_contents (by omega)]
    simp [Nat.add_assoc, Nat.add_comm 1 i]
  · rw [List.getElem?_eq_none (by simp at hlen'; omega), List.getElem?_eq_none (by omega)]

/-- The oldest element is the one at `head`. -/
theorem WF.head?_contents {r : RingBuf α} (h : r.WF) (hne : 0 < r.cnt) :
    r.contents.head? = r.slots[r.head]? := by
  rw [List.head?_eq_getElem?, h.getElem?_contents hne, Nat.add_zero, Nat.mod_eq_of_lt h.head_lt]

theorem WF.contents_setFront {r : RingBuf α} (h : r.WF) (hne : 0 < r.cnt) (x : α) :
    (r.setFront x).contents = x :: r.contents.tail := by
  have h' := h.setFront x
  have hlen := h.length_contents
  have hlen' := h'.length_contents
  have hfits := h.fits
  have hhead : r.head < r.slots.length := h.head_lt
  refine List.ext_getElem? fun i => ?_
  rcases Nat.lt_or_ge i r.cnt with hi | hi
  · rw [h'.getElem?_contents (by simpa using hi)]
    cases i with
    | zero => simp [Nat.mod_eq_of_lt h.head_lt, hhead]
    | succ i =>
      rw [List.getElem?_cons_succ, List.getElem?_tail, h.getElem?_contents hi]
      have hcell : r.head ≠ (r.head + (i + 1)) % r.cap := by
        intro heq
        have hzero : (r.head + 0) % r.cap = (r.head + (i + 1)) % r.cap := by
          rw [← heq, Nat.add_zero, Nat.mod_eq_of_lt h.head_lt]
        exact absurd (offset_inj (by omega) (by omega) hzero) (by omega)
      simp [List.getElem?_set_ne hcell]
  · rw [List.getElem?_eq_none (by simp at hlen'; omega),
      List.getElem?_eq_none (by simp; omega)]

/-- An empty ring over any nonempty array. -/
def empty (slots : List α) : RingBuf α := ⟨slots, 0, 0, 0⟩

theorem WF.empty {slots : List α} (h : slots ≠ []) : (RingBuf.empty slots).WF where
  fits := Nat.zero_le _
  head_lt := List.length_pos_of_ne_nil h
  tail_eq := by simp [RingBuf.empty]

@[simp] theorem contents_empty (slots : List α) : (RingBuf.empty slots).contents = [] := rfl

end RingBuf
