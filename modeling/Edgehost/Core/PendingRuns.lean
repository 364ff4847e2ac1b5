import Edgehost.Common.Runs
import Edgehost.Core.PendingTable

/-!
# Runs of the pending table

`EdgePendingTable.entries` reads the table as a set. In every reachable table the set is finite, no
larger than the capacity, and no two of its entries share an inbound slot or an outbound id, and the
operations act on it as on a set.

A pointer that a find returned is the index of its entry. It may be stale when it is released: then the
entry that sits there now is released, if there is one.

* `IsPendingSet` is the abstract table, and `ActsAsSet` says what each operation does to it.
* `pending_refines_set` has both for every run.
-/

namespace Edgehost

variable {P : Type*}

/-- The operations on a table. -/
inductive PendingOp (P : Type*)
  | insert (inboundSlot : UInt32) (outboundId : UInt64) (plugin : Option P) (userTag : UInt64)
      (timeoutMs : UInt32) (startedMs : UInt64) (principalSub : Option Bytes)
  | findOutbound (outboundId : UInt64)
  | findInbound (inboundSlot : UInt32)
  /-- `edge_pending_release` with the entry at an index, which a find has returned. -/
  | release (i : ℕ)
  | releaseOutbound (outboundId : UInt64)
  | releaseInbound (inboundSlot : UInt32)

/-- The table after an operation; a find leaves it as it is. -/
def pendingStep (t : EdgePendingTable P) : PendingOp P → EdgePendingTable P
  | .insert slot id plugin tag timeout started sub =>
    (edgePendingInsert t slot id plugin tag timeout started sub).1
  | .findOutbound _ => t
  | .findInbound _ => t
  | .release i => edgePendingRelease t i
  | .releaseOutbound id => (edgePendingReleaseOutbound t id).1
  | .releaseInbound slot => (edgePendingReleaseInbound t slot).1

/-- The capacity that `edge_pending_create` chooses. -/
def pendingCapacity (capacity : ℕ) : ℕ :=
  if capacity = 0 then EDGE_PENDING_DEFAULT_CAP else capacity

/-- The abstract table: a finite set of entries with two keys. -/
structure IsPendingSet (s : Set (EdgePendingEntry P)) (capacity : ℕ) : Prop where
  finite : s.Finite
  inboundUnique : s.InjOn fun e => e.inboundSlot
  outboundUnique : s.InjOn fun e => e.outboundId
  named : ∀ e ∈ s, e.outboundId ≠ 0 ∧ e.plugin.isSome
  card_le : s.ncard ≤ capacity

namespace EdgePendingTable

/-- The table as a set. -/
def entries (t : EdgePendingTable P) : Set (EdgePendingEntry P) := liveSet EdgePendingEntry.used t.slots

/-- What every operation does to the set, and what it returns. -/
structure ActsAsSet (t : EdgePendingTable P) (capacity : ℕ) : Prop where
  insert_iff : ∀ slot id plugin tag timeout started sub,
    (edgePendingInsert t slot id plugin tag timeout started sub).2 = 0 ↔
      t.entries.ncard < capacity ∧ plugin.isSome ∧ id ≠ 0 ∧
        ∀ e ∈ t.entries, e.inboundSlot ≠ slot ∧ e.outboundId ≠ id
  insert_done : ∀ slot id plugin tag timeout started sub,
    (edgePendingInsert t slot id plugin tag timeout started sub).2 = 0 →
      (edgePendingInsert t slot id plugin tag timeout started sub).1.entries
        = insert (newPendingEntry slot id plugin tag timeout started sub) t.entries
  insert_refused : ∀ slot id plugin tag timeout started sub,
    (edgePendingInsert t slot id plugin tag timeout started sub).2 ≠ 0 →
      edgePendingInsert t slot id plugin tag timeout started sub = (t, -1)
  findOutbound : ∀ id e,
    (∃ i, edgePendingFindOutbound t id = some (i, e)) ↔ e ∈ t.entries ∧ e.outboundId = id
  findInbound : ∀ slot e,
    (∃ i, edgePendingFindInbound t slot = some (i, e)) ↔ e ∈ t.entries ∧ e.inboundSlot = slot
  release_found : ∀ i e,
    ((∃ id, edgePendingFindOutbound t id = some (i, e)) ∨
      ∃ slot, edgePendingFindInbound t slot = some (i, e)) →
      (edgePendingRelease t i).entries = t.entries \ {e}
  release_stale : ∀ i, (edgePendingRelease t i).entries = t.entries \ {e | t.slots[i]? = some e}
  releaseOutbound_iff : ∀ id,
    (edgePendingReleaseOutbound t id).2 = 0 ↔ ∃ e ∈ t.entries, e.outboundId = id
  releaseOutbound_entries : ∀ id,
    (edgePendingReleaseOutbound t id).1.entries = {e ∈ t.entries | e.outboundId ≠ id}
  releaseInbound_iff : ∀ slot,
    (edgePendingReleaseInbound t slot).2 = 0 ↔ ∃ e ∈ t.entries, e.inboundSlot = slot
  releaseInbound_entries : ∀ slot,
    (edgePendingReleaseInbound t slot).1.entries = {e ∈ t.entries | e.inboundSlot ≠ slot}

variable {t : EdgePendingTable P}

/-! ## One operation -/

/-- An entry of a well-formed table is the one at its index. -/
theorem entries_release (ht : t.WellFormed) {i : ℕ} {e : EdgePendingEntry P}
    (he : t.slots[i]? = some e) (hused : e.used = true) :
    (edgePendingRelease t i).entries = t.entries \ {e} := by
  have hset : liveSet EdgePendingEntry.used (t.slots.set i .zero)
      = liveSet EdgePendingEntry.used t.slots \ {e} :=
    ht.inboundDistinct.liveSet_set_clear he hused rfl
  simpa only [entries, edgePendingRelease, he, hused, Bool.not_true, Bool.false_eq_true, if_false]
    using hset

theorem slots_length_release (i : ℕ) : (edgePendingRelease t i).slots.length = t.slots.length := by
  unfold edgePendingRelease
  split
  · rfl
  · split
    · rfl
    · exact List.length_set

/-- Releasing any index keeps the invariant. -/
theorem WellFormed.release_any (ht : t.WellFormed) (i : ℕ) : (edgePendingRelease t i).WellFormed := by
  rcases he : t.slots[i]? with _ | e
  · simpa only [edgePendingRelease, he] using ht
  · by_cases hused : e.used
    · exact (ht.release he hused).1
    · simpa only [edgePendingRelease, he, hused, Bool.not_false, if_true] using ht

theorem insert_none (slot : UInt32) (id tag : UInt64) (timeout : UInt32) (started : UInt64)
    (sub : Option Bytes) : edgePendingInsert t slot id none tag timeout started sub = (t, -1) := by
  simp [edgePendingInsert]

/-- A table accepts an entry exactly when there is room and neither key is present. -/
theorem WellFormed.accepts_iff_entries (ht : t.WellFormed) {slot : UInt32} {id : UInt64} :
    t.Accepts slot id ↔ t.entries.ncard < t.slots.length ∧ id ≠ 0 ∧
      ∀ e ∈ t.entries, e.inboundSlot ≠ slot ∧ e.outboundId ≠ id := by
  have hcard : t.entries.ncard = t.count := by
    rw [ht.count_eq]
    exact ht.inboundDistinct.ncard_liveSet
  have hfull : edgePendingFull t = false ↔ t.entries.ncard < t.slots.length := by
    simp [edgePendingFull, hcard]
  rw [ht.accepts_iff, hfull, inbound, outbound, SlotView.lookup_eq_none_iff,
    SlotView.lookup_eq_none_iff, SlotView.find_eq_none, SlotView.find_eq_none]
  constructor
  · rintro ⟨hid, hroom, hin, hout⟩
    exact ⟨hroom, hid, fun e he => ⟨hin e he.1 he.2, hout e he.1 he.2⟩⟩
  · rintro ⟨hroom, hid, hfresh⟩
    exact ⟨hid, hroom, fun e he hused => (hfresh e ⟨he, hused⟩).1,
      fun e he hused => (hfresh e ⟨he, hused⟩).2⟩

theorem WellFormed.exists_findInbound_iff (ht : t.WellFormed) {slot : UInt32}
    {e : EdgePendingEntry P} :
    (∃ i, edgePendingFindInbound t slot = some (i, e)) ↔ e ∈ t.entries ∧ e.inboundSlot = slot :=
  ht.inboundDistinct.exists_locate_iff

theorem WellFormed.exists_findOutbound_iff (ht : t.WellFormed) {id : UInt64}
    {e : EdgePendingEntry P} :
    (∃ i, edgePendingFindOutbound t id = some (i, e)) ↔ e ∈ t.entries ∧ e.outboundId = id := by
  unfold edgePendingFindOutbound
  by_cases hid : id = 0
  · rw [if_pos hid]
    constructor
    · rintro ⟨i, h⟩
      cases h
    · rintro ⟨⟨he, hused⟩, rfl⟩
      exact absurd hid (ht.named e he hused).2
  · rw [if_neg hid]
    exact ht.outboundDistinct.exists_locate_iff

/-- Both releases by key: what is found by the key is released, and that is all that carries it. -/
private theorem WellFormed.release_by_key (ht : t.WellFormed) {κ : Type*} {key : EdgePendingEntry P → κ}
    {found : Option (ℕ × EdgePendingEntry P)} {k : κ}
    (hfound : ∀ e, (∃ i, found = some (i, e)) ↔ e ∈ t.entries ∧ key e = k)
    (hcell : ∀ i e, found = some (i, e) → t.slots[i]? = some e)
    {released : EdgePendingTable P × ℤ}
    (hnone : found = none → released = (t, -1))
    (hsome : ∀ i e, found = some (i, e) → released = (edgePendingRelease t i, 0)) :
    (released.2 = 0 ↔ ∃ e ∈ t.entries, key e = k) ∧
      released.1.entries = {e ∈ t.entries | key e ≠ k} := by
  rcases hf : found with _ | ⟨i, e⟩
  · have hno : ∀ e ∈ t.entries, key e ≠ k := fun e he hk => by
      obtain ⟨i, hi⟩ := (hfound e).mpr ⟨he, hk⟩
      rw [hf] at hi
      cases hi
    rw [hnone hf]
    refine ⟨⟨fun h => absurd h (Int.negSucc_ne_zero 0), fun ⟨e, he, hk⟩ => absurd hk (hno e he)⟩, ?_⟩
    ext e
    exact ⟨fun he => ⟨he, hno e he⟩, fun he => he.1⟩
  · obtain ⟨he, hk⟩ := (hfound e).mp ⟨i, hf⟩
    rw [hsome i e hf]
    refine ⟨⟨fun _ => ⟨e, he, hk⟩, fun _ => rfl⟩, ?_⟩
    rw [entries_release ht (hcell i e hf) he.2]
    ext x
    constructor
    · rintro ⟨hx, hne⟩
      refine ⟨hx, fun hxk => ?_⟩
      obtain ⟨j, hj⟩ := (hfound x).mpr ⟨hx, hxk⟩
      rw [hf] at hj
      cases hj
      exact hne rfl
    · rintro ⟨hx, hne⟩
      refine ⟨hx, ?_⟩
      rintro rfl
      exact hne hk

theorem WellFormed.releaseOutbound_entries (ht : t.WellFormed) (id : UInt64) :
    ((edgePendingReleaseOutbound t id).2 = 0 ↔ ∃ e ∈ t.entries, e.outboundId = id) ∧
      (edgePendingReleaseOutbound t id).1.entries = {e ∈ t.entries | e.outboundId ≠ id} := by
  refine ht.release_by_key (fun _ => ht.exists_findOutbound_iff)
    (fun i e h => (findOutbound_eq_some h).1) (fun h => ?_) fun i e h => ?_ <;>
  rw [edgePendingReleaseOutbound, h]

theorem WellFormed.releaseInbound_entries (ht : t.WellFormed) (slot : UInt32) :
    ((edgePendingReleaseInbound t slot).2 = 0 ↔ ∃ e ∈ t.entries, e.inboundSlot = slot) ∧
      (edgePendingReleaseInbound t slot).1.entries = {e ∈ t.entries | e.inboundSlot ≠ slot} := by
  refine ht.release_by_key (fun _ => ht.exists_findInbound_iff)
    (fun i e h => (findInbound_eq_some h).1) (fun h => ?_) fun i e h => ?_ <;>
  rw [edgePendingReleaseInbound, h]

/-- Insertion into a well-formed table: when it succeeds, what it adds, and that it changes nothing
else. -/
theorem entries_insert (ht : t.WellFormed) (slot : UInt32) (id : UInt64)
    (plugin : Option P) (tag : UInt64) (timeout : UInt32) (started : UInt64) (sub : Option Bytes) :
    let Fresh := t.entries.ncard < t.slots.length ∧ plugin.isSome ∧ id ≠ 0 ∧
      ∀ e ∈ t.entries, e.inboundSlot ≠ slot ∧ e.outboundId ≠ id
    let r := edgePendingInsert t slot id plugin tag timeout started sub
    (Fresh ∧ r.2 = 0 ∧
      r.1.entries = insert (newPendingEntry slot id plugin tag timeout started sub) t.entries) ∨
    (¬ Fresh ∧ r = (t, -1)) := by
  rcases plugin with _ | p
  · exact .inr ⟨fun h => absurd h.2.1 Bool.false_ne_true, insert_none ..⟩
  · have hacc := @WellFormed.accepts_iff_entries P t ht slot id
    rcases insert_cases t slot id p tag timeout started sub with
      ⟨hok, i, old, hold, hfree, heq⟩ | ⟨hno, heq⟩
    · obtain ⟨hroom, hid, hfresh⟩ := hacc.mp hok
      refine .inl ⟨⟨hroom, rfl, hid, hfresh⟩, by rw [heq], ?_⟩
      rw [heq]
      exact liveSet_set_free hold hfree rfl
    · exact .inr ⟨fun ⟨hroom, _, hid, hfresh⟩ => hno (hacc.mpr ⟨hroom, hid, hfresh⟩), heq⟩

/-- **One operation on a well-formed table** acts on the set of its entries. -/
theorem WellFormed.actsAsSet (ht : t.WellFormed) : t.ActsAsSet t.slots.length where
  insert_iff slot id plugin tag timeout started sub := by
    obtain ⟨hfresh, hok, -⟩ | ⟨hno, heq⟩ := entries_insert ht slot id plugin tag timeout started sub
    · exact iff_of_true hok hfresh
    · refine iff_of_false ?_ hno
      rw [heq]
      exact Int.negSucc_ne_zero 0
  insert_done slot id plugin tag timeout started sub hok := by
    obtain ⟨-, -, hentries⟩ | ⟨-, heq⟩ := entries_insert ht slot id plugin tag timeout started sub
    · exact hentries
    · rw [heq] at hok
      exact absurd hok (Int.negSucc_ne_zero 0)
  insert_refused slot id plugin tag timeout started sub hne := by
    obtain ⟨-, hok, -⟩ | ⟨-, heq⟩ := entries_insert ht slot id plugin tag timeout started sub
    · exact absurd hok hne
    · exact heq
  findOutbound _ _ := ht.exists_findOutbound_iff
  findInbound _ _ := ht.exists_findInbound_iff
  release_found i e hfound := by
    obtain ⟨id, h⟩ | ⟨slot, h⟩ := hfound
    · obtain ⟨he, hused, -, -⟩ := findOutbound_eq_some h
      exact entries_release ht he hused
    · obtain ⟨he, hused, -⟩ := findInbound_eq_some h
      exact entries_release ht he hused
  release_stale i := by
    rcases he : t.slots[i]? with _ | e
    · simp [edgePendingRelease, he]
    · have hset : {x | some e = some x} = {e} := by
        ext x
        simp [eq_comm]
      rw [hset]
      by_cases hused : e.used
      · exact entries_release ht he hused
      · have hsame : edgePendingRelease t i = t := by simp [edgePendingRelease, he, hused]
        rw [hsame, Set.sdiff_singleton_eq_self]
        exact fun hmem => hused hmem.2
  releaseOutbound_iff id := (ht.releaseOutbound_entries id).1
  releaseOutbound_entries id := (ht.releaseOutbound_entries id).2
  releaseInbound_iff slot := (ht.releaseInbound_entries slot).1
  releaseInbound_entries slot := (ht.releaseInbound_entries slot).2

/-- The set of a well-formed table is an abstract table. -/
theorem WellFormed.isPendingSet (ht : t.WellFormed) :
    IsPendingSet t.entries t.slots.length ∧ t.count = t.entries.ncard := by
  have hcard : t.entries.ncard = t.slots.countP EdgePendingEntry.used :=
    ht.inboundDistinct.ncard_liveSet
  have hunique : ∀ {κ : Type} {v : SlotView (EdgePendingEntry P) κ}, v.Distinct t.slots →
      v.live = EdgePendingEntry.used → t.entries.InjOn v.key := by
    intro κ v hd hlive x hx y hy heq
    obtain ⟨i, hi⟩ := List.mem_iff_getElem?.mp hx.1
    obtain ⟨j, hj⟩ := List.mem_iff_getElem?.mp hy.1
    obtain rfl := hd i j x y hi hj (hlive ▸ hx.2) (hlive ▸ hy.2) heq
    exact Option.some.inj (hi.symm.trans hj)
  exact ⟨{ finite := liveSet_finite _ _
           inboundUnique := hunique ht.inboundDistinct rfl
           outboundUnique := hunique ht.outboundDistinct rfl
           named := fun e he => (ht.named e he.1 he.2).symm
           card_le := hcard ▸ List.countP_le_length }, by rw [ht.count_eq, hcard]⟩

/-! ## Runs -/

/-- A well-formed table with this many slots. -/
def Sized (t : EdgePendingTable P) (capacity : ℕ) : Prop :=
  t.WellFormed ∧ t.slots.length = capacity

theorem sized_create (capacity : ℕ) :
    (edgePendingCreate (P := P) capacity).Sized (pendingCapacity capacity) :=
  ⟨wellFormed_create capacity, List.length_replicate⟩

theorem Sized.release {capacity : ℕ} (ht : t.Sized capacity) (i : ℕ) :
    (edgePendingRelease t i).Sized capacity :=
  ⟨ht.1.release_any i, (slots_length_release i).trans ht.2⟩

/-- Every operation keeps the invariant and the number of slots. -/
theorem Sized.step {capacity : ℕ} (ht : t.Sized capacity) (op : PendingOp P) :
    (pendingStep t op).Sized capacity := by
  cases op with
  | insert slot id plugin tag timeout started sub =>
    rcases plugin with _ | p
    · rw [pendingStep, insert_none]
      exact ht
    · rw [pendingStep]
      rcases insert_cases t slot id p tag timeout started sub with
        ⟨hok, i, old, -, -, heq⟩ | ⟨-, heq⟩
      · refine ⟨(ht.1.insert p tag timeout started sub hok).1, ?_⟩
        rw [heq]
        exact List.length_set.trans ht.2
      · rw [heq]
        exact ht
  | findOutbound id => exact ht
  | findInbound slot => exact ht
  | release i => exact ht.release i
  | releaseOutbound id =>
    rw [pendingStep, edgePendingReleaseOutbound]
    rcases edgePendingFindOutbound t id with _ | ⟨i, e⟩
    · exact ht
    · exact ht.release i
  | releaseInbound slot =>
    rw [pendingStep, edgePendingReleaseInbound]
    rcases edgePendingFindInbound t slot with _ | ⟨i, e⟩
    · exact ht
    · exact ht.release i

/-- **The pending table refines a finite set with two keys.** After every sequence of operations the
entries are such a set, `count` is its size, and every operation acts on it as it should. -/
theorem pending_refines_set (capacity : ℕ) (ops : List (PendingOp P)) :
    let t := runFrom pendingStep (edgePendingCreate capacity) ops
    IsPendingSet t.entries (pendingCapacity capacity) ∧ t.count = t.entries.ncard ∧
      t.ActsAsSet (pendingCapacity capacity) := by
  intro t
  obtain ⟨hwf, hlen⟩ : t.Sized (pendingCapacity capacity) :=
    runFrom_of_step (P := fun t : EdgePendingTable P => t.Sized (pendingCapacity capacity))
      (fun _ op ht => ht.step op) (sized_create capacity) ops
  rw [← hlen]
  exact ⟨hwf.isPendingSet.1, hwf.isPendingSet.2, hwf.actsAsSet⟩

end EdgePendingTable

end Edgehost
